import SimpleCpu.Mips.Alu

/-!
# The signed comparison of the MIPS single-cycle processor

The sign of a difference is taken from the sum, or from the first operand when the adder
reports an overflow.  The adder compares the carry out of bit 31 with the one out of bit 27
instead of the one into bit 31, so it reports overflows that are none and misses others.
`signed_comparison_iff` says for which operands the comparison is right all the same.
-/

namespace SimpleCpu.Mips

open SimpleCpu.Rtl

/-- The bits below the top block of the adder. -/
def lowBits (a : BitVec 32) : Nat := a.toNat % 2 ^ 28

/-- The operands for which the processor has the sign of `a - b` wrong: it takes the sign of
`a` although `a` and `b` have the same, or that of the sum although it has overflowed. -/
def signWrong (a b : BitVec 32) : Prop :=
  0 ≤ a.toInt ∧ a.toInt < b.toInt ∧ lowBits b ≤ lowBits a ∨
  a.toInt < 0 ∧ b.toInt ≤ a.toInt ∧ lowBits a < lowBits b ∨
  2 ^ 31 ≤ a.toInt - b.toInt ∧ lowBits a < lowBits b ∨
  a.toInt - b.toInt < -2 ^ 31 ∧ lowBits b ≤ lowBits a

instance (a b : BitVec 32) : Decidable (signWrong a b) := inferInstanceAs (Decidable (_ ∨ _))

section Sign

variable (a b : BitVec 32)

/-- The sign that the ALU derives from a subtraction. -/
def subSign : Bool :=
  if (adderSingleCycle a (~~~b) true).vFlag then a.getLsbD 31 else (a - b).getLsbD 31

omit b in
/-- The sign bit, and the two readings of a word. -/
theorem toInt_cases :
    a.toNat < 2 ^ 31 ∧ a.getLsbD 31 = false ∧ a.toInt = a.toNat ∨
      2 ^ 31 ≤ a.toNat ∧ a.getLsbD 31 = true ∧ a.toInt = a.toNat - 2 ^ 32 := by
  have hbit : a.getLsbD 31 = decide (2 ^ 31 ≤ a.toNat) :=
    (BitVec.msb_eq_getLsbD_last a).symm.trans (BitVec.msb_eq_decide a)
  rw [hbit, BitVec.toInt_eq_toNat_cond]
  by_cases h : 2 ^ 31 ≤ a.toNat
  · rw [if_neg (by omega)]
    exact .inr ⟨h, decide_eq_true h, rfl⟩
  · rw [if_pos (by omega)]
    exact .inl ⟨by omega, decide_eq_false h, rfl⟩

/-- Without the flag the sign is that of the sum, with it that of the first operand. -/
theorem subSign_eq_iff : subSign a b = decide (a.toInt < b.toInt) ↔ ¬ signWrong a b := by
  have ha := a.isLt
  have hb := b.isLt
  have hsub := BitVec.toNat_sub a b
  unfold subSign signWrong lowBits
  rw [adderSingleCycle_vFlag_sub]
  by_cases hv : b.toNat ≤ a.toNat ↔ b.toNat % 2 ^ 28 ≤ a.toNat % 2 ^ 28
  · have hflag : (decide (b.toNat ≤ a.toNat) ^^
        decide (b.toNat % 2 ^ 28 ≤ a.toNat % 2 ^ 28)) = false := by
      rw [decide_eq_decide.mpr hv, Bool.xor_self]
    rw [hflag, if_neg Bool.false_ne_true]
    rcases toInt_cases a with ⟨hma, -, hia⟩ | ⟨hma, -, hia⟩ <;>
      rcases toInt_cases b with ⟨hmb, -, hib⟩ | ⟨hmb, -, hib⟩ <;>
      rcases toInt_cases (a - b) with ⟨hms, hbit, -⟩ | ⟨hms, hbit, -⟩ <;>
      simp only [hbit, Bool.true_eq, Bool.false_eq, decide_eq_true_eq, decide_eq_false_iff_not] <;>
      omega
  · have hflag : (decide (b.toNat ≤ a.toNat) ^^
        decide (b.toNat % 2 ^ 28 ≤ a.toNat % 2 ^ 28)) = true :=
      bne_iff_ne.mpr (mt decide_eq_decide.mp hv)
    rw [hflag, if_pos rfl]
    rcases toInt_cases a with ⟨hma, hbit, hia⟩ | ⟨hma, hbit, hia⟩ <;>
      rcases toInt_cases b with ⟨hmb, -, hib⟩ | ⟨hmb, -, hib⟩ <;>
      simp only [hbit, Bool.true_eq, Bool.false_eq, decide_eq_true_eq, decide_eq_false_iff_not] <;>
      omega

end Sign

/-- The processor compares right, and has the sign of a difference right, for the same
operands. -/
theorem signed_comparison_iff (a b : BitVec 32) :
    ((aluSingleCycle a b SLT_OP).res = (if a.toInt < b.toInt then 1 else 0) ↔
      ¬ signWrong a b) ∧
    ((aluSingleCycle a b SUB_OP).n = decide (a.toInt - b.toInt < 0) ↔ ¬ signWrong a b) := by
  have hslt : (aluSingleCycle a b SLT_OP).res = (BitVec.ofBool (subSign a b)).setWidth 32 := by
    simp [aluSingleCycle, adderSingleCycle_sum, aluResult, subSign]
  have hsub : (aluSingleCycle a b SUB_OP).n = subSign a b := by
    simp [aluSingleCycle, adderSingleCycle_sum, subSign]
  have hneg : decide (a.toInt - b.toInt < 0) = decide (a.toInt < b.toInt) := by
    rw [decide_eq_decide]
    omega
  rw [hslt, hsub, hneg, ← subSign_eq_iff]
  refine ⟨?_, Iff.rfl⟩
  by_cases hlt : a.toInt < b.toInt
  · rw [if_pos hlt, decide_eq_true hlt]
    cases subSign a b <;> decide
  · rw [if_neg hlt, decide_eq_false hlt]
    cases subSign a b <;> decide

/-- `0 < 0x10000000`, and the processor says no. -/
theorem signed_comparison_wrong :
    ¬ ∀ a b : BitVec 32,
      (aluSingleCycle a b SLT_OP).res = (if a.toInt < b.toInt then 1 else 0) ∧
        (aluSingleCycle a b SUB_OP).n = decide (a.toInt - b.toInt < 0) := by
  intro h
  exact absurd (h 0 0x10000000).1 (by decide +kernel)

end SimpleCpu.Mips
