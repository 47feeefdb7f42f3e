import SimpleCpu.Bits.Fields

/-!
# Carry chains

The carries of a sum, from the bits that generate them and the bits that pass them on.
An adder that is built from blocks has the carries of the sum at the ends of its blocks;
the two topmost say whether the signed sum fits.
-/

namespace SimpleCpu.Bits

open BitVec

/-! ## Lookahead -/

section Lookahead

variable (g p : Nat → Bool)

/-- The `n` lowest bits generate a carry. -/
def generates : Nat → Bool
  | 0 => false
  | n + 1 => g n || (p n && generates n)

/-- The `n` lowest bits pass a carry on. -/
def propagates : Nat → Bool
  | 0 => true
  | n + 1 => p n && propagates n

/-- A chain of carries, each from the one before it, is known from its first. -/
theorem chain_eq_lookahead (carries : Nat → Bool) {n : Nat}
    (h : ∀ i < n, carries (i + 1) = (g i || (p i && carries i))) :
    carries n = (generates g p n || (propagates p n && carries 0)) := by
  induction n with
  | zero => simp [generates, propagates]
  | succ n ih =>
      rw [h n (by omega), ih fun i hi => h i (by omega)]
      rw [generates, propagates, Bool.and_or_distrib_left, Bool.or_assoc, Bool.and_assoc]

end Lookahead

/-! ## The carries of a sum -/

section Sums

variable {w : Nat} (x y : BitVec w) (c : Bool)

/-- Two ones generate a carry, and one of them passes it on. -/
theorem carry_succ_eq (i : Nat) : carry (i + 1) x y c =
    (x.getLsbD i && y.getLsbD i || (x.getLsbD i || y.getLsbD i) && carry i x y c) := by
  rw [carry_succ]
  cases x.getLsbD i <;> cases y.getLsbD i <;> simp

/-- The carry out of the `n` lowest bits: they generate one, or pass `c` on. -/
theorem carry_eq_lookahead (n : Nat) : carry n x y c =
    (generates (x &&& y).getLsbD (x ||| y).getLsbD n ||
      (propagates (x ||| y).getLsbD n && c)) := by
  have hstep : ∀ i < n, carry (i + 1) x y c =
      ((x &&& y).getLsbD i || ((x ||| y).getLsbD i && carry i x y c)) := by
    intro i _
    rw [getLsbD_and, getLsbD_or, carry_succ_eq]
  have hchain := chain_eq_lookahead _ _ (fun i => carry i x y c) hstep
  rwa [carry_zero] at hchain

/-- The carries inside a field are those of the sum of the fields. -/
theorem carry_extractLsb' {n j : Nat} (i : Nat) (h : j ≤ n) :
    carry j (x.extractLsb' i n) (y.extractLsb' i n) (carry i x y c) = carry (i + j) x y c := by
  induction j with
  | zero => rw [carry_zero, Nat.add_zero]
  | succ j ih =>
      rw [carry_succ, ih (by omega), ← Nat.add_assoc, carry_succ, getLsbD_extractLsb',
        getLsbD_extractLsb', decide_eq_true (by omega : j < n), Bool.true_and, Bool.true_and]

/-- A field of a sum is the sum of the fields. -/
theorem extractLsb'_sum {i n : Nat} (h : i + n ≤ w) :
    (x + y + setWidth w (ofBool c)).extractLsb' i n =
      x.extractLsb' i n + y.extractLsb' i n + setWidth n (ofBool (carry i x y c)) := by
  apply eq_of_getLsbD_eq
  intro j hj
  rw [getLsbD_add_add_bool hj, carry_extractLsb' x y c i (by omega)]
  simp only [getLsbD_extractLsb', hj, decide_true, Bool.true_and]
  exact getLsbD_add_add_bool (by omega) x y c

/-- The carry out of the top bit is the next bit of the sum. -/
theorem toNat_carry_append_sum :
    (ofBool (carry w x y c) ++ (x + y + setWidth w (ofBool c))).toNat =
      x.toNat + y.toNat + c.toNat := by
  have hx := x.isLt
  have hy := y.isLt
  have hc := Bool.toNat_le c
  have hsum : (x + y + setWidth w (ofBool c)).toNat = (x.toNat + y.toNat + c.toNat) % 2 ^ w := by
    rw [toNat_add, toNat_add, toNat_setWidth, toNat_ofBool, ← Nat.add_mod]
  rw [toNat_append_eq, toNat_ofBool, hsum, carry, Nat.mod_eq_of_lt hx, Nat.mod_eq_of_lt hy]
  by_cases hfit : 2 ^ w ≤ x.toNat + y.toNat + c.toNat
  · rw [decide_eq_true hfit, Nat.mod_eq_sub_mod hfit, Nat.mod_eq_of_lt (by omega)]
    simp; omega
  · rw [decide_eq_false hfit, Nat.mod_eq_of_lt (by omega)]
    simp

end Sums

/-! ## Signed sums -/

section Signed

variable {w : Nat} (x y : BitVec (w + 1)) (c : Bool)

/-- The carries into and out of the top bit differ when both words have one sign and the sum
has the other. -/
theorem carry_xor_carry_eq_msb : (carry w x y c ^^ carry (w + 1) x y c) =
    (x.msb == y.msb && (x + y + setWidth (w + 1) (ofBool c)).msb != x.msb) := by
  have hsum := getLsbD_add_add_bool (Nat.lt_succ_self w) x y c
  rw [carry_succ, msb_eq_getLsbD_last, msb_eq_getLsbD_last, msb_eq_getLsbD_last,
    Nat.add_sub_cancel, hsum]
  cases x.getLsbD w <;> cases y.getLsbD w <;> cases carry w x y c <;> rfl

/-- A word by its sign and its other bits. -/
theorem toInt_eq_low_sub :
    x.toInt = (x.toNat % 2 ^ w : Nat) - (x.msb.toNat * 2 ^ w : Nat) := by
  have hx := x.isLt
  rw [toInt_eq_msb_cond]
  rw [Nat.pow_succ] at hx
  cases hmsb : x.msb with
  | true =>
      have hge := msb_eq_true_iff_two_mul_ge.mp hmsb
      rw [Nat.pow_succ] at hge
      have hlow : x.toNat % 2 ^ w = x.toNat - 2 ^ w := by
        rw [Nat.mod_eq_sub_mod (by omega), Nat.mod_eq_of_lt (by omega)]
      rw [if_pos rfl, hlow, Bool.toNat_true, Nat.pow_succ]
      omega
  | false =>
      have hlt := msb_eq_false_iff_two_mul_lt.mp hmsb
      rw [Nat.pow_succ] at hlt
      rw [if_neg Bool.false_ne_true, Nat.mod_eq_of_lt (by omega), Bool.toNat_false]
      omega

/-- The carries into and out of the top bit differ when the signed sum does not fit. -/
theorem carry_xor_carry_iff :
    (carry w x y c ^^ carry (w + 1) x y c) = true ↔
      ¬ (-2 ^ w ≤ x.toInt + y.toInt + c.toNat ∧ x.toInt + y.toInt + c.toNat < 2 ^ w) := by
  have hc := Bool.toNat_le c
  have hx := Nat.mod_lt x.toNat (Nat.two_pow_pos w)
  have hy := Nat.mod_lt y.toNat (Nat.two_pow_pos w)
  have hpow : ((2 ^ w : Nat) : Int) = 2 ^ w := by norm_cast
  have hcarry : carry w x y c =
      decide (2 ^ w ≤ x.toNat % 2 ^ w + y.toNat % 2 ^ w + c.toNat) := rfl
  have hxsign : x.getLsbD w = x.msb := (msb_eq_getLsbD_last x).symm
  have hysign : y.getLsbD w = y.msb := (msb_eq_getLsbD_last y).symm
  rw [carry_succ, hxsign, hysign, toInt_eq_low_sub, toInt_eq_low_sub y, ← hpow, hcarry]
  generalize x.toNat % 2 ^ w = lowX at *
  generalize y.toNat % 2 ^ w = lowY at *
  generalize 2 ^ w = half at *
  by_cases hlow : half ≤ lowX + lowY + c.toNat
  · rw [decide_eq_true hlow]
    cases x.msb <;> cases y.msb <;> simp <;> omega
  · rw [decide_eq_false hlow]
    cases x.msb <;> cases y.msb <;> simp <;> omega

end Signed

end SimpleCpu.Bits
