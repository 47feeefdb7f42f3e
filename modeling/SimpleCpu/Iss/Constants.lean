import Mathlib.Tactic.IntervalCases
import SimpleCpu.Bits.Fields

/-!
# Sign extension by constants

Both simulators extend a sign with a table of masks, `shift_const`: a field whose sign
bit is set is joined with the mask of its upper bits.
-/

namespace SimpleCpu.Iss

/-- `shift_const` -/
def shiftConst (shamt : BitVec 32) : BitVec 32 :=
  match shamt.toNat with
  | 1 => 0x80000000 | 2 => 0xC0000000 | 3 => 0xE0000000 | 4 => 0xF0000000
  | 5 => 0xF8000000 | 6 => 0xFC000000 | 7 => 0xFE000000 | 8 => 0xFF000000
  | 9 => 0xFF800000 | 10 => 0xFFC00000 | 11 => 0xFFE00000 | 12 => 0xFFF00000
  | 13 => 0xFFF80000 | 14 => 0xFFFC0000 | 15 => 0xFFFE0000 | 16 => 0xFFFF0000
  | 17 => 0xFFFF8000 | 18 => 0xFFFFC000 | 19 => 0xFFFFE000 | 20 => 0xFFFFF000
  | 21 => 0xFFFFF800 | 22 => 0xFFFFFC00 | 23 => 0xFFFFFE00 | 24 => 0xFFFFFF00
  | 25 => 0xFFFFFF80 | 26 => 0xFFFFFFC0 | 27 => 0xFFFFFFE0 | 28 => 0xFFFFFFF0
  | 29 => 0xFFFFFFF8 | 30 => 0xFFFFFFFC | 31 => 0xFFFFFFFE | _ => 0x00000000

/-- `(sign) ? (imm | shift_const(shamt)) : imm`, with the sign at bit `bit`. -/
def extend (bit : Nat) (shamt imm : BitVec 32) : BitVec 32 :=
  if (imm &&& 1#32 <<< bit) >>> bit ≠ 0 then imm ||| shiftConst shamt else imm

/-- A C comparison as an integer. -/
def ofBool (b : Bool) : BitVec 32 := if b then 1 else 0

theorem ofBool_eq (b : Bool) : ofBool b = (BitVec.ofBool b).setWidth 32 := by
  cases b <;> rfl

/-- `shift_const(n)` has its top `n` bits set. -/
theorem shiftConst_eq {n : Nat} (hn : n < 32) :
    shiftConst (BitVec.ofNat 32 n) = BitVec.allOnes 32 <<< (32 - n) := by
  interval_cases n <;> rfl

/-- The C test of one bit. -/
theorem bit_test {k : Nat} (hk : k < 32) (x : BitVec 32) :
    (x &&& 1#32 <<< k) >>> k ≠ 0 ↔ x.getLsbD k = true := by
  have h : (x &&& 1#32 <<< k) >>> k = (BitVec.ofBool (x.getLsbD k)).setWidth 32 := by
    apply BitVec.eq_of_getLsbD_eq
    intro i hi
    simp only [BitVec.getLsbD_ushiftRight, BitVec.getLsbD_and, BitVec.getLsbD_shiftLeft,
      BitVec.getLsbD_setWidth, BitVec.getLsbD_ofBool, BitVec.getLsbD_one]
    by_cases hi0 : i = 0
    · subst hi0
      simp [hk]
    · simp [hi0]
  rw [h]
  cases x.getLsbD k <;> simp

/-- A field of `k + 1` bits, extended from bit `k` with the matching constant. -/
theorem extend_eq {k : Nat} (hk : k < 31) (x : BitVec (k + 1)) :
    extend k (BitVec.ofNat 32 (31 - k)) (x.setWidth 32) = x.signExtend 32 := by
  have hmsb : (x.setWidth 32).getLsbD k = x.msb := by
    simp [BitVec.msb_eq_getLsbD_last, show k < 32 by omega]
  have hconst : ∀ i, (shiftConst (BitVec.ofNat 32 (31 - k))).getLsbD i =
      (decide (i < 32) && decide (k + 1 ≤ i)) := by
    intro i
    rw [shiftConst_eq (by omega), show 32 - (31 - k) = k + 1 by omega,
      BitVec.getLsbD_shiftLeft, BitVec.getLsbD_allOnes, Bool.eq_iff_iff]
    simp only [Bool.and_eq_true, Bool.not_eq_true', decide_eq_true_eq,
      decide_eq_false_iff_not]
    omega
  unfold extend
  simp only [bit_test (show k < 32 by omega), hmsb]
  apply BitVec.eq_of_getLsbD_eq
  intro i hi
  rw [BitVec.getLsbD_signExtend]
  split
  next hneg =>
    rw [BitVec.getLsbD_or, BitVec.getLsbD_setWidth, hconst, hneg]
    by_cases hik : i < k + 1
    · have hhigh : decide (k + 1 ≤ i) = false := decide_eq_false (by omega)
      rw [hhigh, Bool.and_false, Bool.or_false]
      simp [hi, hik]
    · simp [hi, hik, show k + 1 ≤ i by omega]
  next hpos =>
    have hpos' : x.msb = false := by simpa using hpos
    rw [BitVec.getLsbD_setWidth, hpos']
    by_cases hik : i < k + 1
    · simp [hi, hik]
    · simp [hi, hik, BitVec.getLsbD_of_ge x i (by omega)]

/-- Where the sign bit is clear, `extend` does nothing, not even to the bits above. -/
theorem extend_of_clear {k : Nat} (hk : k < 32) (shamt : BitVec 32) {x : BitVec 32}
    (h : x.getLsbD k = false) : extend k shamt x = x := by
  refine if_neg ?_
  rw [bit_test hk, h]
  exact Bool.false_ne_true

/-- Where the sign bit is set, the mask covers all the bits above. -/
theorem extend_of_set {k : Nat} (hk : k < 31) {x : BitVec 32} (h : x.getLsbD k = true) :
    extend k (BitVec.ofNat 32 (31 - k)) x = (x.setWidth (k + 1)).signExtend 32 := by
  have hmsb : (x.setWidth (k + 1)).msb = true := by
    rw [BitVec.msb_eq_getLsbD_last, BitVec.getLsbD_setWidth, Nat.add_sub_cancel, h]
    simp
  have hext : extend k (BitVec.ofNat 32 (31 - k)) x =
      x ||| BitVec.allOnes 32 <<< (k + 1) := by
    rw [show k + 1 = 32 - (31 - k) by omega, ← shiftConst_eq (by omega)]
    exact if_pos ((bit_test (by omega) _).mpr h)
  rw [hext]
  apply BitVec.eq_of_getLsbD_eq
  intro i hi
  simp only [BitVec.getLsbD_or, BitVec.getLsbD_signExtend, BitVec.getLsbD_setWidth,
    BitVec.getLsbD_shiftLeft, BitVec.getLsbD_allOnes, hmsb, hi]
  by_cases hik : i < k + 1
  · simp [hik]
  · simp [hik, show i - (k + 1) < 32 by omega]

/-- A number below the sign bit is its own extension. -/
theorem signExtend_of_lt {k : Nat} {x : BitVec 32} (h : x.toNat < 2 ^ k) :
    (x.setWidth (k + 1)).signExtend 32 = x := by
  have hlt : x.toNat < 2 ^ (k + 1) := Nat.lt_of_lt_of_le h (Nat.pow_le_pow_right (by decide)
    (Nat.le_succ k))
  have hmsb : (x.setWidth (k + 1)).msb = false := by
    rw [BitVec.msb_eq_decide, decide_eq_false_iff_not, BitVec.toNat_setWidth,
      Nat.mod_eq_of_lt hlt]
    exact Nat.not_le.mpr h
  rw [BitVec.signExtend_eq_setWidth_of_msb_false hmsb]
  apply BitVec.eq_of_toNat_eq
  rw [BitVec.toNat_setWidth, BitVec.toNat_setWidth, Nat.mod_eq_of_lt hlt,
    Nat.mod_eq_of_lt x.isLt]

/-- The sign of a field that fills its word up to bit `k` needs no mask. -/
theorem extend_shr_eq {k : Nat} (hk : k < 31) (x : BitVec (k + 1)) :
    (if x.setWidth 32 >>> k ≠ 0 then x.setWidth 32 ||| shiftConst (BitVec.ofNat 32 (31 - k))
      else x.setWidth 32) = x.signExtend 32 := by
  have hmask : (x.setWidth 32 &&& 1#32 <<< k) >>> k = x.setWidth 32 >>> k := by
    apply BitVec.eq_of_getLsbD_eq
    intro i hi
    simp only [BitVec.getLsbD_ushiftRight, BitVec.getLsbD_and, BitVec.getLsbD_shiftLeft,
      BitVec.getLsbD_one, BitVec.getLsbD_setWidth]
    by_cases hi0 : i = 0
    · subst hi0
      simp [show k < 32 by omega]
    · rw [BitVec.getLsbD_of_ge x (k + i) (by omega), Bool.and_false, Bool.false_and]
  rw [← extend_eq hk x]
  unfold extend
  rw [hmask]

end SimpleCpu.Iss
