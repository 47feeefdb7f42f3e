import SimpleCpu.Bits.Carries

/-!
# The carry-lookahead adder and its neighbours in the ALUs

The 32-bit adder shared by every datapath of the repository: eight 4-bit
carry-lookahead blocks, each built from reduced full adders and a carry generator.
The pipelines take their overflow flag from the top block; the single-cycle
processor computes its own.

The logical unit and the comparator, too, are one text for several processors.
-/

namespace SimpleCpu.Rtl

open SimpleCpu.Bits

/-! ## Gates -/

/-- Generate output of `reduced_full_adder`. -/
def reducedFullAdderG (op1 op2 : Bool) : Bool := op1 && op2

/-- Propagate output of `reduced_full_adder`. -/
def reducedFullAdderP (op1 op2 : Bool) : Bool := op1 || op2

/-- Sum output of `reduced_full_adder`. -/
def reducedFullAdderS (op1 op2 cin : Bool) : Bool :=
  let andOut1 := op1 && op2
  let orOut1 := op1 || op2
  let andOut2 := orOut1 && !andOut1
  let andOut3 := cin && andOut2
  let orOut2 := cin || andOut2
  orOut2 && !andOut3

/-- Four bits, the most significant first. -/
def bits4 (b3 b2 b1 b0 : Bool) : BitVec 4 :=
  BitVec.ofBool b3 ++ BitVec.ofBool b2 ++ BitVec.ofBool b1 ++ BitVec.ofBool b0

/-- `carry_lookahead_gen`: the carry into each bit of a block. -/
def carryLookaheadGen (g p : BitVec 4) (cin : Bool) : BitVec 4 :=
  let orOut1 := g[0] || (p[0] && cin)
  let orOut2 := g[1] || (p[1] && p[0] && cin) || (p[1] && g[0])
  let orOut3 := g[2] || (p[2] && p[1] && p[0] && cin) || (p[2] && p[1] && g[0]) ||
    (p[2] && g[1])
  bits4 orOut3 orOut2 orOut1 cin

/-- Outputs of one 4-bit block. -/
structure BlockOut where
  s : BitVec 4
  cout : Bool
  v : Bool
  deriving DecidableEq, Repr

/-- `carry_lookahead_adder`: one 4-bit block. -/
def carryLookaheadAdder (op1 op2 : BitVec 4) (cin : Bool) : BlockOut :=
  let g := bits4 (reducedFullAdderG op1[3] op2[3]) (reducedFullAdderG op1[2] op2[2])
    (reducedFullAdderG op1[1] op2[1]) (reducedFullAdderG op1[0] op2[0])
  let p := bits4 (reducedFullAdderP op1[3] op2[3]) (reducedFullAdderP op1[2] op2[2])
    (reducedFullAdderP op1[1] op2[1]) (reducedFullAdderP op1[0] op2[0])
  let genCout := carryLookaheadGen g p cin
  let cout := g[3] || (p[3] && genCout[3])
  { s := bits4 (reducedFullAdderS op1[3] op2[3] genCout[3])
      (reducedFullAdderS op1[2] op2[2] genCout[2])
      (reducedFullAdderS op1[1] op2[1] genCout[1])
      (reducedFullAdderS op1[0] op2[0] cin)
    cout := cout
    v := genCout[3] ^^ cout }

/-! ## The 32-bit adder -/

/-- Outputs of `adder`. -/
structure AdderOut where
  sum : BitVec 32
  carry : Bool
  vFlag : Bool
  deriving DecidableEq, Repr

/-- Bits `4 * i` to `4 * i + 3`. -/
def nibble (x : BitVec 32) (i : Nat) : BitVec 4 := x.extractLsb' (4 * i) 4

/-- `adder`: eight blocks in a row.  The overflow flag is the top block's. -/
def adder (op1 op2 : BitVec 32) (cin : Bool) : AdderOut :=
  let cla1 := carryLookaheadAdder (nibble op1 0) (nibble op2 0) cin
  let cla2 := carryLookaheadAdder (nibble op1 1) (nibble op2 1) cla1.cout
  let cla3 := carryLookaheadAdder (nibble op1 2) (nibble op2 2) cla2.cout
  let cla4 := carryLookaheadAdder (nibble op1 3) (nibble op2 3) cla3.cout
  let cla5 := carryLookaheadAdder (nibble op1 4) (nibble op2 4) cla4.cout
  let cla6 := carryLookaheadAdder (nibble op1 5) (nibble op2 5) cla5.cout
  let cla7 := carryLookaheadAdder (nibble op1 6) (nibble op2 6) cla6.cout
  let cla8 := carryLookaheadAdder (nibble op1 7) (nibble op2 7) cla7.cout
  { sum := cla8.s ++ cla7.s ++ cla6.s ++ cla5.s ++ cla4.s ++ cla3.s ++ cla2.s ++ cla1.s
    carry := cla8.cout
    vFlag := cla8.v }

/-- `adder` of the single-cycle processor.  The overflow flag compares the carries out of
the two top blocks. -/
def adderSingleCycle (op1 op2 : BitVec 32) (cin : Bool) : AdderOut :=
  let cla1 := carryLookaheadAdder (nibble op1 0) (nibble op2 0) cin
  let cla2 := carryLookaheadAdder (nibble op1 1) (nibble op2 1) cla1.cout
  let cla3 := carryLookaheadAdder (nibble op1 2) (nibble op2 2) cla2.cout
  let cla4 := carryLookaheadAdder (nibble op1 3) (nibble op2 3) cla3.cout
  let cla5 := carryLookaheadAdder (nibble op1 4) (nibble op2 4) cla4.cout
  let cla6 := carryLookaheadAdder (nibble op1 5) (nibble op2 5) cla5.cout
  let cla7 := carryLookaheadAdder (nibble op1 6) (nibble op2 6) cla6.cout
  let cla8 := carryLookaheadAdder (nibble op1 7) (nibble op2 7) cla7.cout
  { sum := cla8.s ++ cla7.s ++ cla6.s ++ cla5.s ++ cla4.s ++ cla3.s ++ cla2.s ++ cla1.s
    carry := cla8.cout
    vFlag := cla8.cout ^^ cla7.cout }

/-! ## One block -/

@[simp] theorem bits4_getElem_zero : ∀ b3 b2 b1 b0, (bits4 b3 b2 b1 b0)[0] = b0 := by decide

@[simp] theorem bits4_getElem_one : ∀ b3 b2 b1 b0, (bits4 b3 b2 b1 b0)[1] = b1 := by decide

@[simp] theorem bits4_getElem_two : ∀ b3 b2 b1 b0, (bits4 b3 b2 b1 b0)[2] = b2 := by decide

@[simp] theorem bits4_getElem_three : ∀ b3 b2 b1 b0, (bits4 b3 b2 b1 b0)[3] = b3 := by decide

theorem bits4_getElem : ∀ x : BitVec 4, bits4 x[3] x[2] x[1] x[0] = x := by decide

/-- A reduced full adder adds. -/
theorem reducedFullAdderS_eq (op1 op2 cin : Bool) :
    reducedFullAdderS op1 op2 cin = (op1 ^^ (op2 ^^ cin)) := by
  cases op1 <;> cases op2 <;> cases cin <;> rfl

/-- The lookahead equations: a carry is generated below, or passed on from `cin`. -/
theorem carryLookaheadGen_eq (g p : BitVec 4) (cin : Bool) {i : Nat} (hi : i < 4) :
    (carryLookaheadGen g p cin).getLsbD i =
      (generates g.getLsbD p.getLsbD i || (propagates p.getLsbD i && cin)) := by
  unfold carryLookaheadGen
  interval_cases i
  · simp [generates, propagates]
  · simp [generates, propagates]
  · simp [generates, propagates]
    ac_rfl
  · simp [generates, propagates, Bool.and_or_distrib_left]
    ac_rfl

section Block

variable (a b : BitVec 4) (c : Bool)

/-- With the outputs of the full adders, these are the carries of the sum. -/
theorem carryLookaheadGen_carry {i : Nat} (hi : i < 4) :
    (carryLookaheadGen (a &&& b) (a ||| b) c).getLsbD i = BitVec.carry i a b c := by
  rw [carryLookaheadGen_eq _ _ _ hi, carry_eq_lookahead]

/-- The outputs of a block. -/
theorem carryLookaheadAdder_eq :
    carryLookaheadAdder a b c =
      { s := a + b + (BitVec.ofBool c).setWidth 4
        cout := BitVec.carry 4 a b c
        v := BitVec.carry 3 a b c ^^ BitVec.carry 4 a b c } := by
  have hg : bits4 (reducedFullAdderG a[3] b[3]) (reducedFullAdderG a[2] b[2])
      (reducedFullAdderG a[1] b[1]) (reducedFullAdderG a[0] b[0]) = a &&& b := by
    simpa [reducedFullAdderG] using bits4_getElem (a &&& b)
  have hp : bits4 (reducedFullAdderP a[3] b[3]) (reducedFullAdderP a[2] b[2])
      (reducedFullAdderP a[1] b[1]) (reducedFullAdderP a[0] b[0]) = a ||| b := by
    simpa [reducedFullAdderP] using bits4_getElem (a ||| b)
  have h1 : (carryLookaheadGen (a &&& b) (a ||| b) c)[1] = BitVec.carry 1 a b c :=
    carryLookaheadGen_carry a b c (by decide)
  have h2 : (carryLookaheadGen (a &&& b) (a ||| b) c)[2] = BitVec.carry 2 a b c :=
    carryLookaheadGen_carry a b c (by decide)
  have h3 : (carryLookaheadGen (a &&& b) (a ||| b) c)[3] = BitVec.carry 3 a b c :=
    carryLookaheadGen_carry a b c (by decide)
  have hcout : ((a &&& b)[3] || ((a ||| b)[3] && BitVec.carry 3 a b c)) =
      BitVec.carry 4 a b c := by
    rw [BitVec.getElem_and, BitVec.getElem_or]
    exact (carry_succ_eq a b c 3).symm
  have hs : ∀ i (hi : i < 4), reducedFullAdderS a[i] b[i] (BitVec.carry i a b c) =
      (a + b + (BitVec.ofBool c).setWidth 4)[i] := by
    intro i hi
    rw [reducedFullAdderS_eq, BitVec.getElem_add_add_bool]
  -- the lowest full adder is wired to `cin` itself
  have hs0 := hs 0 (by decide)
  rw [BitVec.carry_zero] at hs0
  unfold carryLookaheadAdder
  simp only [hg, hp, h1, h2, h3, hcout, hs0, hs, bits4_getElem]

end Block

/-! ## All eight -/

/-- The carry out of the `k` lowest blocks. -/
def carryOut (a b : BitVec 32) (c : Bool) : Nat → Bool
  | 0 => c
  | k + 1 => (carryLookaheadAdder (nibble a k) (nibble b k) (carryOut a b c k)).cout

/-- A word by its nibbles. -/
theorem append_nibbles (x : BitVec 32) :
    nibble x 7 ++ nibble x 6 ++ nibble x 5 ++ nibble x 4 ++ nibble x 3 ++ nibble x 2 ++
      nibble x 1 ++ nibble x 0 = x := by
  have hlow : ∀ k len, x.extractLsb' (4 * (k + 1)) len ++ nibble x k =
      x.extractLsb' (4 * k) (len + 4) :=
    fun k len => BitVec.extractLsb'_append_extractLsb'_eq_extractLsb' rfl
  have htop : nibble x 7 = x.extractLsb' (4 * 7) 4 := rfl
  rw [htop, hlow 6, hlow 5, hlow 4, hlow 3, hlow 2, hlow 1, hlow 0]
  exact BitVec.extractLsb'_eq_self

section Adder

variable (a b : BitVec 32) (c : Bool)

/-- The carry from block to block is the carry of the sum. -/
theorem carryOut_eq_carry (k : Nat) : carryOut a b c k = BitVec.carry (4 * k) a b c := by
  induction k with
  | zero => exact BitVec.carry_zero.symm
  | succ k ih =>
      rw [carryOut, ih, carryLookaheadAdder_eq]
      exact carry_extractLsb' a b c (4 * k) (Nat.le_refl 4)

/-- The carry, as a comparison. -/
theorem carryOut_eq (k : Nat) :
    carryOut a b c k =
      decide (2 ^ (4 * k) ≤ a.toNat % 2 ^ (4 * k) + b.toNat % 2 ^ (4 * k) + c.toNat) :=
  carryOut_eq_carry a b c k

/-- Each block has its nibble of the sum. -/
theorem block_s (k : Nat) (hk : k < 8) :
    (carryLookaheadAdder (nibble a k) (nibble b k) (carryOut a b c k)).s =
      nibble (a + b + (BitVec.ofBool c).setWidth 32) k := by
  rw [carryLookaheadAdder_eq, carryOut_eq_carry]
  exact (extractLsb'_sum a b c (by omega)).symm

theorem adder_sum : (adder a b c).sum = a + b + (BitVec.ofBool c).setWidth 32 := by
  have hblock := block_s a b c
  rw [← append_nibbles (a + b + (BitVec.ofBool c).setWidth 32), ← hblock 7 (by decide),
    ← hblock 6 (by decide), ← hblock 5 (by decide), ← hblock 4 (by decide),
    ← hblock 3 (by decide), ← hblock 2 (by decide), ← hblock 1 (by decide),
    ← hblock 0 (by decide)]
  rfl

theorem adder_carry : (adder a b c).carry = BitVec.carry 32 a b c :=
  carryOut_eq_carry a b c 8

/-- The overflow flag compares the carries into and out of bit 31. -/
theorem adder_vFlag :
    (adder a b c).vFlag = (BitVec.carry 31 a b c ^^ BitVec.carry 32 a b c) := by
  have hv : (adder a b c).vFlag =
      (carryLookaheadAdder (nibble a 7) (nibble b 7) (carryOut a b c 7)).v := rfl
  have hinto : BitVec.carry 3 (nibble a 7) (nibble b 7) (BitVec.carry 28 a b c) =
      BitVec.carry 31 a b c := carry_extractLsb' a b c 28 (by decide)
  have hout : BitVec.carry 4 (nibble a 7) (nibble b 7) (BitVec.carry 28 a b c) =
      BitVec.carry 32 a b c := carry_extractLsb' a b c 28 (by decide)
  rw [hv, carryLookaheadAdder_eq, carryOut_eq_carry, hinto, hout]

end Adder

/-- The adder adds: `{carry, sum}` is the sum of its inputs, and the flag is set when the
signed sum does not fit. -/
theorem adder_correct (op1 op2 : BitVec 32) (cin : Bool) :
    (BitVec.ofBool (adder op1 op2 cin).carry ++ (adder op1 op2 cin).sum).toNat =
        op1.toNat + op2.toNat + cin.toNat ∧
      ((adder op1 op2 cin).vFlag = true ↔
        ¬ (-2 ^ 31 ≤ op1.toInt + op2.toInt + cin.toNat ∧
          op1.toInt + op2.toInt + cin.toNat < 2 ^ 31)) := by
  constructor
  · rw [adder_carry, adder_sum]
    exact toNat_carry_append_sum op1 op2 cin
  · rw [adder_vFlag]
    exact carry_xor_carry_iff op1 op2 cin

@[simp] theorem adder_add (a b : BitVec 32) : (adder a b false).sum = a + b := by
  rw [adder_sum]
  exact BitVec.add_zero (a + b)

@[simp] theorem adder_sub (a b : BitVec 32) : (adder a (~~~b) true).sum = a - b := by
  rw [adder_sum, BitVec.sub_eq_add_neg, BitVec.neg_eq_not_add, BitVec.add_assoc]
  rfl

/-! ## Signed comparison -/

/-- The overflow flag: both operands have one sign and the sum the other. -/
theorem adder_overflow (a b : BitVec 32) (c : Bool) :
    (adder a b c).vFlag = (a.msb == b.msb && (adder a b c).sum.msb != a.msb) := by
  rw [adder_vFlag, adder_sum]
  exact carry_xor_carry_eq_msb a b c

/-- With equal signs the sign of the difference is the unsigned comparison. -/
theorem msb_sub_of_msb_eq {a b : BitVec 32} (h : a.msb = b.msb) :
    (a - b).msb = a.ult b := by
  have ha := a.isLt
  have hb := b.isLt
  have hsub := BitVec.toNat_sub a b
  rw [BitVec.msb_eq_decide, BitVec.msb_eq_decide, decide_eq_decide] at h
  rw [BitVec.msb_eq_decide, BitVec.ult, decide_eq_decide]
  omega

/-- The sign the pipelines derive from a subtraction, with the overflow flag taken
into account, is the signed comparison. -/
theorem adder_less (a b : BitVec 32) :
    (if (adder a (~~~b) true).vFlag then a.msb else (adder a (~~~b) true).sum.msb) =
      a.slt b := by
  rw [adder_overflow, adder_sub, BitVec.slt_eq_ult, BitVec.msb_not]
  by_cases h : a.msb = b.msb
  · rw [← msb_sub_of_msb_eq h, h]
    cases b.msb <;> cases (a - b).msb <;> simp
  · rw [BitVec.ult_eq_msb_of_msb_neq h]
    cases ha : a.msb <;> cases hb : b.msb <;> simp_all

/-! ## The single-cycle adder -/

theorem adderSingleCycle_sum (a b : BitVec 32) (c : Bool) :
    (adderSingleCycle a b c).sum = (adder a b c).sum := rfl

/-- A block that adds the carry alone, or its complement, passes the carry on. -/
theorem carryLookaheadAdder_cout_of_constant : ∀ (a : BitVec 4) (c : Bool),
    (carryLookaheadAdder a (if c then 0xF else 0) c).cout = c := by
  decide

/-- Adding or subtracting zero never overflows. -/
theorem adderSingleCycle_vFlag_zero (a : BitVec 32) (c : Bool) :
    (adderSingleCycle a (if c then ~~~0 else 0) c).vFlag = false := by
  have hnibble : ∀ i < 8, nibble (if c then ~~~(0 : BitVec 32) else 0) i =
      if c then 0xF else 0 := by
    intro i hi
    interval_cases i <;> cases c <;> decide
  simp only [adderSingleCycle, hnibble 0 (by decide), hnibble 1 (by decide),
    hnibble 2 (by decide), hnibble 3 (by decide), hnibble 4 (by decide),
    hnibble 5 (by decide), hnibble 6 (by decide), hnibble 7 (by decide),
    carryLookaheadAdder_cout_of_constant, Bool.xor_self]

/-- The overflow flag compares the carries out of bits 31 and 27. -/
theorem adderSingleCycle_vFlag (a b : BitVec 32) (c : Bool) :
    (adderSingleCycle a b c).vFlag = (carryOut a b c 8 ^^ carryOut a b c 7) := rfl

theorem adderSingleCycle_vFlag_sub (a b : BitVec 32) :
    (adderSingleCycle a (~~~b) true).vFlag =
      (decide (b.toNat ≤ a.toNat) ^^ decide (b.toNat % 2 ^ 28 ≤ a.toNat % 2 ^ 28)) := by
  have ha := a.isLt
  have hb := b.isLt
  rw [adderSingleCycle_vFlag, carryOut_eq, carryOut_eq, BitVec.toNat_not, Bool.toNat_true]
  congr 1
  · rw [decide_eq_decide]
    omega
  · rw [decide_eq_decide]
    omega

/-! ## The logical unit and the comparator

Where the source assigns `x` the model has zero. -/

/-- `logical` -/
def logical (op1 op2 : BitVec 32) (operation : BitVec 3) : BitVec 32 :=
  if operation = 0b001 then op1 ||| op2
  else if operation = 0b010 then op1 &&& op2
  else if operation = 0b011 then ~~~(op1 ||| op2)
  else if operation = 0b100 then op1 ^^^ op2
  else 0

/-- `comparator` -/
def comparator (op1 op2 : BitVec 32) (operation : BitVec 3) : Bool :=
  if operation = 0b000 then op1 == op2
  else if operation = 0b010 then op2.ult op1
  else if operation = 0b101 ∨ operation = 0b110 then op1.ult op2
  else false

end SimpleCpu.Rtl
