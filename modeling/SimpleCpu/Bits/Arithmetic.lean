import Mathlib.Data.Nat.Bitwise

/-!
# Narrow arithmetic

When an operation of the wrong kind or width gives the right result: a product that is
widened too late, a shift that does not extend the sign, and one by another amount.
-/

namespace SimpleCpu.Bits

/-! ## Products -/

/-- A signed product, widened after the multiplication. -/
theorem setWidth_mul_eq_signed_iff (a b : BitVec 32) :
    (a * b).setWidth 64 = a.signExtend 64 * b.signExtend 64 ↔
      0 ≤ a.toInt * b.toInt ∧ a.toInt * b.toInt < 2 ^ 32 := by
  have hlow : -(2 ^ 62) ≤ a.toInt * b.toInt := BitVec.le_toInt_mul_toInt
  have hhigh : a.toInt * b.toInt ≤ 2 ^ 62 := BitVec.toInt_mul_toInt_le
  have hnarrow : a * b = BitVec.ofInt 32 (a.toInt * b.toInt) := by
    rw [BitVec.ofInt_mul, BitVec.ofInt_toInt, BitVec.ofInt_toInt]
  have hwide : a.signExtend 64 * b.signExtend 64 = BitVec.ofInt 64 (a.toInt * b.toInt) :=
    (BitVec.ofInt_mul ..).symm
  rw [hnarrow, hwide, ← BitVec.toNat_inj, BitVec.toNat_setWidth_of_le (by decide),
    BitVec.toNat_ofInt, BitVec.toNat_ofInt]
  generalize a.toInt * b.toInt = p at hlow hhigh
  omega

/-- An unsigned product, widened after the multiplication. -/
theorem setWidth_mul_eq_unsigned_iff (a b : BitVec 32) :
    (a * b).setWidth 64 = a.setWidth 64 * b.setWidth 64 ↔ a.toNat * b.toNat < 2 ^ 32 := by
  have hbound : a.toNat * b.toNat < 2 ^ 32 * 2 ^ 32 := Nat.mul_lt_mul'' a.isLt b.isLt
  rw [← BitVec.toNat_inj, BitVec.toNat_mul, BitVec.toNat_setWidth_of_le (by decide),
    BitVec.toNat_setWidth_of_le (by decide), BitVec.toNat_setWidth_of_le (by decide),
    BitVec.toNat_mul]
  generalize a.toNat * b.toNat = p at hbound
  omega

/-- The two halves of a widened word. -/
theorem halves_setWidth (x : BitVec 32) :
    ((x.setWidth 64 : BitVec 64) >>> 32).setWidth 32 ++
      (x.setWidth 64 : BitVec 64).setWidth 32 = x.setWidth 64 := by
  apply BitVec.eq_of_getLsbD_eq
  intro i hi
  simp only [BitVec.getLsbD_append, BitVec.getLsbD_setWidth, BitVec.getLsbD_ushiftRight]
  by_cases h : i < 32
  · simp [h, hi]
  · simp [h, BitVec.getLsbD_of_ge x i (by omega)]

/-- A double word by its halves. -/
theorem append_eq_iff (x y : BitVec 32) (p : BitVec 64) :
    x ++ y = p ↔ x = p.extractLsb' 32 32 ∧ y = p.extractLsb' 0 32 := by
  constructor
  · rintro rfl
    constructor
    · apply BitVec.eq_of_getLsbD_eq
      intro i hi
      rw [BitVec.getLsbD_extractLsb', BitVec.getLsbD_append]
      simp [hi]
    · apply BitVec.eq_of_getLsbD_eq
      intro i hi
      rw [BitVec.getLsbD_extractLsb', BitVec.getLsbD_append]
      simp [hi]
  · rintro ⟨rfl, rfl⟩
    apply BitVec.eq_of_getLsbD_eq
    intro i hi
    rw [BitVec.getLsbD_append, BitVec.getLsbD_extractLsb', BitVec.getLsbD_extractLsb']
    by_cases h : i < 32
    · simp [h]
    · simp [h, show i - 32 < 32 by omega, show 32 + (i - 32) = i by omega]

/-! ## Shifts -/

/-- A logical shift is arithmetic when nothing is shifted, or no sign. -/
theorem sshiftRight_eq_iff {w : Nat} (a : BitVec w) (n : Nat) :
    a >>> n = a.sshiftRight n ↔ n = 0 ∨ a.msb = false := by
  constructor
  · intro h
    have hmsb := congrArg BitVec.msb h
    rw [BitVec.msb_ushiftRight, BitVec.msb_sshiftRight] at hmsb
    by_cases h0 : n = 0
    · exact .inl h0
    · have hpos : (!decide (0 < n)) = false := by simp [Nat.pos_of_ne_zero h0]
      rw [hpos, Bool.false_and] at hmsb
      exact .inr hmsb.symm
  · rintro (rfl | h)
    · rw [BitVec.sshiftRight_zero, BitVec.ushiftRight_zero]
    · exact (BitVec.sshiftRight_eq_of_msb_false h).symm

section Amounts

variable {w : Nat} (a : BitVec w)

/-- A word that a shift leaves as it is has no bits. -/
theorem eq_zero_of_shiftLeft {k : Nat} (hk : k ≠ 0) (h : a <<< k = a) : a = 0#w := by
  apply BitVec.eq_of_getLsbD_eq
  intro i
  induction i using Nat.strong_induction_on with
  | _ i ih =>
      intro hi
      rw [← h, BitVec.getLsbD_shiftLeft, BitVec.getLsbD_zero]
      by_cases hik : i < k
      · simp [hik]
      · have hlower := ih (i - k) (by omega) (by omega)
        rw [hlower, BitVec.getLsbD_zero, Bool.and_false]

theorem eq_zero_of_ushiftRight {k : Nat} (hk : k ≠ 0) (h : a >>> k = a) : a = 0#w := by
  have hdiv : a.toNat / 2 ^ k = a.toNat := by
    rw [← Nat.shiftRight_eq_div_pow, ← BitVec.toNat_ushiftRight, h]
  apply BitVec.eq_of_toNat_eq
  rw [BitVec.toNat_zero]
  by_contra hne
  have hless := Nat.div_lt_self (Nat.pos_of_ne_zero hne) (Nat.one_lt_two_pow hk)
  omega

/-- No bit is left of a word. -/
theorem shiftLeft_eq_zero_iff (n : Nat) : a <<< n = 0#w ↔ 2 ^ (w - n) ∣ a.toNat := by
  rw [← BitVec.toNat_inj, BitVec.toNat_shiftLeft, Nat.shiftLeft_eq, BitVec.toNat_zero,
    ← Nat.dvd_iff_mod_eq_zero]
  by_cases hn : n ≤ w
  · have hsplit : 2 ^ w = 2 ^ (w - n) * 2 ^ n := by rw [← Nat.pow_add, Nat.sub_add_cancel hn]
    rw [hsplit]
    exact Nat.mul_dvd_mul_iff_right (Nat.two_pow_pos n)
  · have hpow : 2 ^ w ∣ 2 ^ n := Nat.pow_dvd_pow 2 (by omega)
    rw [Nat.sub_eq_zero_of_le (by omega), Nat.pow_zero]
    exact iff_of_true (Dvd.dvd.mul_left hpow _) (Nat.one_dvd _)

theorem ushiftRight_eq_zero_iff (n : Nat) : a >>> n = 0#w ↔ a.toNat < 2 ^ n := by
  rw [← BitVec.toNat_inj, BitVec.toNat_ushiftRight, Nat.shiftRight_eq_div_pow,
    BitVec.toNat_zero, Nat.div_eq_zero_iff_lt (Nat.two_pow_pos n)]

/-- Two amounts shift alike when the smaller one leaves no bit already. -/
theorem shiftLeft_eq_of_lt {m n : Nat} (h : m < n) : a <<< m = a <<< n ↔ a <<< m = 0#w := by
  have hadd : a <<< n = a <<< m <<< (n - m) := by
    rw [← BitVec.shiftLeft_add, Nat.add_sub_cancel' (by omega)]
  rw [hadd]
  constructor
  · intro heq
    exact eq_zero_of_shiftLeft (a <<< m) (by omega) heq.symm
  · intro hzero
    rw [hzero, BitVec.zero_shiftLeft]

theorem ushiftRight_eq_of_lt {m n : Nat} (h : m < n) : a >>> m = a >>> n ↔ a >>> m = 0#w := by
  have hadd : a >>> n = a >>> m >>> (n - m) := by
    rw [← BitVec.shiftRight_add, Nat.add_sub_cancel' (by omega)]
  rw [hadd]
  constructor
  · intro heq
    exact eq_zero_of_ushiftRight (a >>> m) (by omega) heq.symm
  · intro hzero
    rw [hzero, BitVec.zero_ushiftRight]

theorem shiftLeft_eq_shiftLeft_iff (m n : Nat) :
    a <<< m = a <<< n ↔ m = n ∨ 2 ^ (w - min m n) ∣ a.toNat := by
  rw [← shiftLeft_eq_zero_iff]
  rcases Nat.lt_trichotomy m n with h | rfl | h
  · rw [shiftLeft_eq_of_lt a h, Nat.min_eq_left (by omega), or_iff_right (by omega)]
  · exact iff_of_true rfl (.inl rfl)
  · rw [eq_comm, shiftLeft_eq_of_lt a h, Nat.min_eq_right (by omega), or_iff_right (by omega)]

theorem ushiftRight_eq_ushiftRight_iff (m n : Nat) :
    a >>> m = a >>> n ↔ m = n ∨ a.toNat < 2 ^ min m n := by
  rw [← ushiftRight_eq_zero_iff]
  rcases Nat.lt_trichotomy m n with h | rfl | h
  · rw [ushiftRight_eq_of_lt a h, Nat.min_eq_left (by omega), or_iff_right (by omega)]
  · exact iff_of_true rfl (.inl rfl)
  · rw [eq_comm, ushiftRight_eq_of_lt a h, Nat.min_eq_right (by omega), or_iff_right (by omega)]

end Amounts

end SimpleCpu.Bits
