import Mathlib.Tactic.IntervalCases
import Mathlib.Data.Nat.Bitwise

/-!
# Fields of a word

C code takes a field out of a word with a shift and a mask, Verilog with a part
select.  The lemmas here turn the first into the second, and put fields back together, by
`|||` or by `+`.
-/

namespace SimpleCpu.Bits

/-- A shift and a mask of `n` ones select `n` bits. -/
theorem shr_and_mask {w : Nat} (x : BitVec w) (k n : Nat) :
    x >>> k &&& BitVec.ofNat w (2 ^ n - 1) = (x.extractLsb' k n).setWidth w := by
  apply BitVec.eq_of_getLsbD_eq
  intro i hi
  simp only [BitVec.getLsbD_and, BitVec.getLsbD_ushiftRight, BitVec.getLsbD_ofNat,
    BitVec.getLsbD_setWidth, BitVec.getLsbD_extractLsb', Nat.testBit_two_pow_sub_one]
  cases x.getLsbD (k + i) <;> simp [hi]

theorem and_mask {w : Nat} (x : BitVec w) (n : Nat) :
    x &&& BitVec.ofNat w (2 ^ n - 1) = (x.extractLsb' 0 n).setWidth w := by
  simpa using shr_and_mask x 0 n

/-- Widening and narrowing back. -/
theorem setWidth_setWidth_self {n w : Nat} (x : BitVec n) (h : n ≤ w) :
    (x.setWidth w).setWidth n = x := by
  apply BitVec.eq_of_toNat_eq
  have hx := x.isLt
  have hle : 2 ^ n ≤ 2 ^ w := Nat.pow_le_pow_right (by decide) h
  have hxw : x.toNat % 2 ^ w = x.toNat := Nat.mod_eq_of_lt (by omega)
  rw [BitVec.toNat_setWidth, BitVec.toNat_setWidth, hxw, Nat.mod_eq_of_lt hx]

/-- A widened field is a literal when the field is. -/
theorem setWidth_eq_iff {n w : Nat} (h : n ≤ w) (x y : BitVec n) :
    x.setWidth w = y.setWidth w ↔ x = y := by
  constructor
  · intro hxy
    rw [← setWidth_setWidth_self x h, hxy, setWidth_setWidth_self y h]
  · rintro rfl
    rfl

/-- A field above another one. -/
theorem shl_or_setWidth {n m w : Nat} (x : BitVec n) (y : BitVec m) :
    (x.setWidth w <<< m) ||| y.setWidth w = (x ++ y).setWidth w := by
  apply BitVec.eq_of_getLsbD_eq
  intro i hi
  simp only [BitVec.getLsbD_or, BitVec.getLsbD_shiftLeft, BitVec.getLsbD_setWidth,
    BitVec.getLsbD_append]
  by_cases him : i < m
  · simp [him, hi]
  · have hy : y.getLsbD i = false := BitVec.getLsbD_of_ge y i (by omega)
    have hi' : i - m < w := by omega
    simp [him, hi, hy, hi']

/-- Two neighbouring fields. -/
theorem shl_or_shl {n m w : Nat} (x : BitVec n) (y : BitVec m) (k : Nat) :
    (x.setWidth w <<< (m + k)) ||| (y.setWidth w <<< k) = (x ++ y).setWidth w <<< k := by
  rw [← shl_or_setWidth, BitVec.shiftLeft_or_distrib, BitVec.shiftLeft_add]

/-- A field above zeros. -/
theorem setWidth_shl {n w : Nat} (x : BitVec n) (k : Nat) :
    x.setWidth w <<< k = (x ++ 0#k).setWidth w := by
  rw [← shl_or_setWidth, BitVec.setWidth_zero, BitVec.or_zero]

/-- Clearing the low bits does not matter when they are shifted out. -/
theorem and_not_mask_shr (x : BitVec 32) : (x &&& 0xFFFFFFFC) >>> 2 = x >>> 2 := by
  apply BitVec.eq_of_getLsbD_eq
  intro i hi
  simp only [BitVec.getLsbD_ushiftRight, BitVec.getLsbD_and]
  interval_cases i <;> simp

/-- Aligned words. -/
theorem and_3_eq_mod (x : BitVec 32) : (x &&& 3).toNat = x.toNat % 4 := by
  rw [BitVec.toNat_and]
  exact Nat.and_two_pow_sub_one_eq_mod x.toNat 2

theorem and_3_eq_zero_iff (x : BitVec 32) : x &&& 3 = 0 ↔ x.toNat % 4 = 0 := by
  rw [← and_3_eq_mod]
  constructor
  · intro h
    rw [h]
    rfl
  · intro h
    exact BitVec.eq_of_toNat_eq h

/-- Aligning a word. -/
theorem and_not_3_toNat (x : BitVec 32) :
    (x &&& 0xFFFFFFFC).toNat = x.toNat - x.toNat % 4 := by
  have hsplit : x = (x &&& 0xFFFFFFFC) + (x &&& 3) := by
    have hor : x = (x &&& 0xFFFFFFFC) ||| (x &&& 3) := by
      apply BitVec.eq_of_getLsbD_eq
      intro i hi
      simp only [BitVec.getLsbD_or, BitVec.getLsbD_and]
      interval_cases i <;> simp
    have hdisj : (x &&& 0xFFFFFFFC) &&& (x &&& 3) = 0#32 := by
      apply BitVec.eq_of_getLsbD_eq
      intro i hi
      simp only [BitVec.getLsbD_and]
      interval_cases i <;> simp
    rw [BitVec.add_eq_or_of_and_eq_zero _ _ hdisj]
    exact hor
  have h3 := and_3_eq_mod x
  have hle : (x &&& 0xFFFFFFFC).toNat ≤ x.toNat := by
    rw [BitVec.toNat_and]
    exact Nat.and_le_left
  have hsum := congrArg BitVec.toNat hsplit
  rw [BitVec.toNat_add, h3] at hsum
  have hx := x.isLt
  omega

theorem and_not_3_aligned (x : BitVec 32) : (x &&& 0xFFFFFFFC) &&& 3 = 0 := by
  rw [and_3_eq_zero_iff, and_not_3_toNat]
  omega

/-- An aligned word is its own alignment. -/
theorem and_not_3_of_aligned {x : BitVec 32} (h : x &&& 3 = 0) : x &&& 0xFFFFFFFC = x := by
  rw [and_3_eq_zero_iff] at h
  apply BitVec.eq_of_toNat_eq
  rw [and_not_3_toNat]
  omega

/-- A word shifted up is even. -/
theorem shl_and_1 (x : BitVec 32) {k : Nat} (hk : 0 < k) : x <<< k &&& 1 = 0 := by
  apply BitVec.eq_of_getLsbD_eq
  intro i hi
  rw [BitVec.getLsbD_and, BitVec.getLsbD_shiftLeft]
  cases i with
  | zero => simp [hk]
  | succ i => simp

/-- A multiple of four that is cut off and extended again is still one. -/
theorem signExtend_shl_2_aligned (x : BitVec 32) {k : Nat} (hk : 2 ≤ k) :
    (((x <<< 2).setWidth k).signExtend 32).toNat % 4 = 0 := by
  rw [← and_3_eq_zero_iff]
  apply BitVec.eq_of_getLsbD_eq
  intro i hi
  rw [BitVec.getLsbD_and]
  by_cases h2 : i < 2
  · simp [BitVec.getLsbD_signExtend, BitVec.getLsbD_setWidth, h2, hi, show i < k by omega,
      -BitVec.getLsbD_eq_getElem]
  · have hthree : (3 : BitVec 32).getLsbD i = false := by interval_cases i <;> simp at h2 ⊢
    rw [hthree, Bool.and_false]
    simp

/-- The low five bits are a remainder. -/
theorem and_31_eq_mod (n : Nat) : n &&& 31 = n % 32 :=
  Nat.and_two_pow_sub_one_eq_mod n 5

theorem toNat_and_31 (x : BitVec 32) : (x &&& 0x1F#32).toNat = x.toNat % 32 :=
  (BitVec.toNat_and x 0x1F#32).trans (and_31_eq_mod x.toNat)

/-- Two fields side by side, as a number. -/
theorem toNat_append_eq {n m : Nat} (x : BitVec n) (y : BitVec m) :
    (x ++ y).toNat = x.toNat * 2 ^ m + y.toNat := by
  rw [BitVec.toNat_append, ← Nat.shiftLeft_add_eq_or_of_lt y.isLt, Nat.shiftLeft_eq]

/-- A segment masked out of one word and an index shifted into another. -/
theorem segment_or_index (x : BitVec 32) (t : BitVec 26) :
    (x &&& 0xF0000000#32) ||| (t.setWidth 32 <<< 2 : BitVec 32) =
      x.extractLsb' 28 4 ++ (t ++ 0#2) := by
  apply BitVec.eq_of_getLsbD_eq
  intro i hi
  simp only [BitVec.getLsbD_or, BitVec.getLsbD_and, BitVec.getLsbD_shiftLeft,
    BitVec.getLsbD_setWidth, BitVec.getLsbD_append, BitVec.getLsbD_extractLsb']
  interval_cases i <;> simp

/-! ## Sums of fields -/

/-- A field masked out of an `int`. -/
theorem sshr_and_mask (x : BitVec 32) {k n : Nat} (h : k + n ≤ 32) :
    x.sshiftRight k &&& BitVec.ofNat 32 (2 ^ n - 1) = (x.extractLsb' k n).setWidth 32 := by
  apply BitVec.eq_of_getLsbD_eq
  intro i hi
  simp only [BitVec.getLsbD_and, BitVec.getLsbD_sshiftRight, BitVec.getLsbD_ofNat,
    BitVec.getLsbD_setWidth, BitVec.getLsbD_extractLsb', Nat.testBit_two_pow_sub_one]
  by_cases hin : i < n
  · simp [hi, hin, show k + i < 32 by omega]
  · simp [hin]

/-- A field whose upper neighbours are shifted out. -/
theorem sshr_shl (x : BitVec 32) {k n m : Nat} (hn : n + m = 32) (h : k + n ≤ 32) :
    x.sshiftRight k <<< m = (x.extractLsb' k n).setWidth 32 <<< m := by
  apply BitVec.eq_of_getLsbD_eq
  intro i hi
  simp only [BitVec.getLsbD_shiftLeft, BitVec.getLsbD_sshiftRight, BitVec.getLsbD_setWidth,
    BitVec.getLsbD_extractLsb']
  by_cases him : i < m
  · simp [him]
  · have hfield : i - m < n := by omega
    simp [hi, him, hfield, show i - m < 32 by omega, show k + (i - m) < 32 by omega]

theorem shl_low (x : BitVec 32) {n m : Nat} (hn : n + m = 32) :
    x <<< m = (x.setWidth n).setWidth 32 <<< m := by
  apply BitVec.eq_of_getLsbD_eq
  intro i hi
  simp only [BitVec.getLsbD_shiftLeft, BitVec.getLsbD_setWidth]
  by_cases him : i < m
  · simp [him]
  · simp [hi, him, show i - m < n by omega, show i - m < 32 by omega]

/-- Two neighbouring fields are added without a carry. -/
theorem shl_add_shl {n m w : Nat} (x : BitVec n) (y : BitVec m) (k : Nat) :
    (x.setWidth w <<< (m + k)) + (y.setWidth w <<< k) = (x ++ y).setWidth w <<< k := by
  have hdisj : (x.setWidth w <<< (m + k)) &&& (y.setWidth w <<< k) = 0#w := by
    apply BitVec.eq_of_getLsbD_eq
    intro i hi
    simp only [BitVec.getLsbD_and, BitVec.getLsbD_shiftLeft, BitVec.getLsbD_setWidth,
      BitVec.getLsbD_zero]
    by_cases him : i < m + k
    · simp [him]
    · simp [BitVec.getLsbD_of_ge y (i - k) (by omega)]
  rw [BitVec.add_eq_or_of_and_eq_zero _ _ hdisj, shl_or_shl]

/-- The last field is not shifted. -/
theorem shl_add_setWidth {n m w : Nat} (x : BitVec n) (y : BitVec m) :
    (x.setWidth w <<< m) + y.setWidth w = (x ++ y).setWidth w := by
  have h := shl_add_shl (w := w) x y 0
  rwa [Nat.add_zero, BitVec.shiftLeft_zero, BitVec.shiftLeft_zero] at h

/-! ## Extended fields -/

section Extended

variable {w n s : Nat} (v : BitVec w)

/-- A word is its low bits, widened, when it has no others. -/
theorem eq_setWidth_low_iff : v = (v.extractLsb' 0 n).setWidth w ↔ v.toNat < 2 ^ n := by
  have hle : v.toNat % 2 ^ n < 2 ^ w := (Nat.mod_le _ _).trans_lt v.isLt
  rw [← BitVec.toNat_inj, BitVec.toNat_setWidth, BitVec.extractLsb'_toNat, Nat.shiftRight_zero,
    Nat.mod_eq_of_lt hle]
  constructor
  · intro h
    rw [h]
    exact Nat.mod_lt _ (Nat.two_pow_pos n)
  · intro h
    exact (Nat.mod_eq_of_lt h).symm

/-- A field above the lowest bit is smaller than the word. -/
theorem eq_setWidth_field_iff (hs : s ≠ 0) : v = (v.extractLsb' s n).setWidth w ↔ v = 0#w := by
  constructor
  · intro h
    have hfield : v.toNat ≤ v.toNat / 2 ^ s := by
      calc v.toNat
        _ = v.toNat / 2 ^ s % 2 ^ n % 2 ^ w := by
          conv_lhs => rw [h, BitVec.toNat_setWidth, BitVec.extractLsb'_toNat,
            Nat.shiftRight_eq_div_pow]
        _ ≤ v.toNat / 2 ^ s := (Nat.mod_le _ _).trans (Nat.mod_le _ _)
    apply BitVec.eq_of_toNat_eq
    rw [BitVec.toNat_zero]
    by_contra hne
    have hless := Nat.div_lt_self (Nat.pos_of_ne_zero hne) (Nat.one_lt_two_pow hs)
    omega
  · rintro rfl
    rw [BitVec.extractLsb'_zero, BitVec.setWidth_zero]

/-- A word is its low bits with their sign when it is in their range. -/
theorem eq_signExtend_low_iff (hn : n + 1 ≤ w) :
    v = (v.extractLsb' 0 (n + 1)).signExtend w ↔ -2 ^ n ≤ v.toInt ∧ v.toInt < 2 ^ n := by
  have hbmod : ((v.extractLsb' 0 (n + 1)).signExtend w).toInt = v.toInt.bmod (2 ^ (n + 1)) := by
    rw [BitVec.toInt_signExtend_of_le hn, BitVec.toInt_extractLsb', Nat.shiftRight_zero,
      BitVec.toInt_eq_toNat_bmod, Int.bmod_bmod_of_dvd (Nat.pow_dvd_pow 2 hn)]
  rw [← BitVec.toInt_inj, hbmod]
  have hpow : ((2 ^ n : Nat) : Int) = 2 ^ n := by norm_cast
  constructor
  · intro h
    have hlow := Int.le_bmod (x := v.toInt) (m := 2 ^ (n + 1)) (Nat.two_pow_pos _)
    have hhigh := Int.bmod_lt (x := v.toInt) (m := 2 ^ (n + 1)) (Nat.two_pow_pos _)
    rw [← h, Nat.pow_succ] at hlow hhigh
    omega
  · rintro ⟨hlow, hhigh⟩
    refine (Int.bmod_eq_of_le_mul_two ?_ ?_).symm
    · rw [Nat.pow_succ]
      omega
    · rw [Nat.pow_succ]
      omega

/-- The bits of a field that is extended by its sign. -/
theorem getLsbD_signExtend_field (hn : n ≠ 0) {i : Nat} (hi : i < w) :
    ((v.extractLsb' s n).signExtend w).getLsbD i =
      if i < n then v.getLsbD (s + i) else v.getLsbD (s + (n - 1)) := by
  have hsign : (v.extractLsb' s n).msb = v.getLsbD (s + (n - 1)) := by
    rw [BitVec.msb_eq_getLsbD_last, BitVec.getLsbD_extractLsb',
      decide_eq_true (by omega : n - 1 < n), Bool.true_and]
  rw [BitVec.getLsbD_signExtend, hsign, BitVec.getLsbD_extractLsb', decide_eq_true hi,
    Bool.true_and]
  by_cases hin : i < n
  · simp [hin]
  · simp [hin]

/-- Where such a field above the lowest bit is the word, each bit is the one `s` places above
it, and those above the field are its sign. -/
theorem getLsbD_eq_sign (hs : s ≠ 0) (hn : n ≠ 0) (hfit : s + n ≤ w)
    (h : v = (v.extractLsb' s n).signExtend w) (i : Nat) (hi : i < w) :
    v.getLsbD i = v.getLsbD (s + (n - 1)) := by
  have hbit : v.getLsbD i = if i < n then v.getLsbD (s + i) else v.getLsbD (s + (n - 1)) :=
    (congrArg (BitVec.getLsbD · i) h).trans (getLsbD_signExtend_field v hn hi)
  by_cases hin : i < n
  · rw [hbit, if_pos hin]
    exact getLsbD_eq_sign hs hn hfit h (s + i) (by omega)
  · rw [hbit, if_neg hin]
termination_by w - i

theorem eq_signExtend_field_iff (hs : s ≠ 0) (hn : n ≠ 0) (hfit : s + n ≤ w) :
    v = (v.extractLsb' s n).signExtend w ↔ v = 0#w ∨ v = BitVec.allOnes w := by
  constructor
  · intro h
    have hsame := getLsbD_eq_sign v hs hn hfit h
    cases hsign : v.getLsbD (s + (n - 1)) with
    | false =>
        refine .inl (BitVec.eq_of_getLsbD_eq fun i hi => ?_)
        rw [hsame i hi, hsign, BitVec.getLsbD_zero]
    | true =>
        refine .inr (BitVec.eq_of_getLsbD_eq fun i hi => ?_)
        rw [hsame i hi, hsign, BitVec.getLsbD_allOnes, decide_eq_true hi]
  · intro h
    apply BitVec.eq_of_getLsbD_eq
    intro i hi
    rw [getLsbD_signExtend_field v hn hi]
    rcases h with rfl | rfl
    · simp
    · by_cases hin : i < n
      · simp [hi, hin, show s + i < w by omega]
      · simp [hi, hin, show s + (n - 1) < w by omega]

end Extended

end SimpleCpu.Bits
