import SimpleCpu.Iss.Bytes

/-!
# A memory of words beside the bytes

A machine that keeps whole words, and loads and stores nothing else, against simulators
that load and store bytes and halves at any address of a region.

* `bytesAt_eq`: what the bytes are when both hold the same words.
* `LoadOp.fits_iff`: the word that contains an address is the value of the load.
* `storeFits_iff`: replacing the word leaves what the store leaves.
-/

namespace SimpleCpu.Iss

open SimpleCpu.Bits

/-! ## Bytes of words -/

/-- The byte `k` of a word. -/
def byteOf (v : BitVec 32) (k : Nat) : BitVec 8 := v.extractLsb' (8 * k) 8

theorem byteOf_toNat (v : BitVec 32) (k : Nat) :
    (byteOf v k).toNat = v.toNat / 2 ^ (8 * k) % 256 := by
  unfold byteOf
  rw [BitVec.extractLsb'_toNat, Nat.shiftRight_eq_div_pow]

theorem wordOfBytes_byteOf (v : BitVec 32) :
    wordOfBytes (byteOf v 3) (byteOf v 2) (byteOf v 1) (byteOf v 0) = v :=
  wordOfBytes_extract v

theorem byteOf_wordOfBytes (b : Nat → BitVec 8) {k : Nat} (hk : k < 4) :
    byteOf (wordOfBytes (b 3) (b 2) (b 1) (b 0)) k = b k := by
  have h4 : k = 0 ∨ k = 1 ∨ k = 2 ∨ k = 3 := by omega
  rw [wordOfBytes_eq]
  apply BitVec.eq_of_toNat_eq
  rw [byteOf_toNat, toNat_append_eq, toNat_append_eq, toNat_append_eq]
  have := (b 0).isLt
  have := (b 1).isLt
  have := (b 2).isLt
  have := (b 3).isLt
  rcases h4 with rfl | rfl | rfl | rfl <;> omega

/-- Words with the same bytes. -/
theorem eq_of_byteOf {v w : BitVec 32} (h : ∀ k < 4, byteOf v k = byteOf w k) : v = w := by
  rw [← wordOfBytes_byteOf v, ← wordOfBytes_byteOf w, h 0 (by decide), h 1 (by decide),
    h 2 (by decide), h 3 (by decide)]

/-- A word as a number, by its bytes. -/
theorem toNat_bytes (v : BitVec 32) :
    v.toNat = (byteOf v 3).toNat * 16777216 + (byteOf v 2).toNat * 65536 +
        (byteOf v 1).toNat * 256 + (byteOf v 0).toNat ∧
      (byteOf v 3).toNat < 256 ∧ (byteOf v 2).toNat < 256 ∧ (byteOf v 1).toNat < 256 ∧
      (byteOf v 0).toNat < 256 := by
  have h := congrArg BitVec.toNat (wordOfBytes_byteOf v)
  rw [wordOfBytes_eq, toNat_append_eq, toNat_append_eq, toNat_append_eq] at h
  refine ⟨?_, (byteOf v 3).isLt, (byteOf v 2).isLt, (byteOf v 1).isLt, (byteOf v 0).isLt⟩
  omega

/-- The address of the word that contains a byte. -/
def wordOf (a : BitVec 32) : BitVec 32 := a &&& 0xFFFFFFFC

theorem wordOf_toNat (a : BitVec 32) : (wordOf a).toNat = a.toNat - a.toNat % 4 :=
  and_not_3_toNat a

/-! ## The same words -/

/-- The region begins and ends between words. -/
structure MemRegion.WordAligned (r : MemRegion) : Prop where
  start : r.start.toNat % 4 = 0
  size : r.size.toNat % 4 = 0

/-- The words of a region as another machine reads them. -/
def SameWords (regions : List MemRegion) (r : MemRegion) (mem : Memory)
    (read : BitVec 32 → BitVec 32) : Prop :=
  ∀ a : BitVec 32, a &&& 3 = 0 → r.HoldsBytes a 4 → memRead32 regions mem a = read a

section Words

variable {regions : List MemRegion} (h : WellFormed regions) {r : MemRegion}
  (hr : r ∈ regions) (hal : r.WordAligned) {mem : Memory} {read : BitVec 32 → BitVec 32}

/-- The word around a byte of the region. -/
theorem MemRegion.WordAligned.word {b : BitVec 32} (hal : r.WordAligned)
    (hb : r.HoldsByte b) : r.HoldsBytes (wordOf b) 4 := by
  obtain ⟨hlow, hhigh⟩ := hb
  obtain ⟨hstart, hsize⟩ := hal
  unfold HoldsBytes
  rw [wordOf_toNat]
  omega

theorem wordOf_add_mod (b : BitVec 32) :
    wordOf b + BitVec.ofNat 32 (b.toNat % 4) = b := by
  have hb := b.isLt
  apply BitVec.eq_of_toNat_eq
  rw [BitVec.toNat_add, wordOf_toNat, BitVec.toNat_ofNat]
  omega

include h hr hal

omit hal in
/-- A word of the region by its bytes. -/
theorem memRead32_eq_iff {a : BitVec 32} (ha : r.HoldsBytes a 4) (v : BitVec 32) :
    memRead32 regions mem a = v ↔ ∀ k < 4, bytesAt regions mem a k = byteOf v k := by
  obtain ⟨bytes, hread, hbytes⟩ : ∃ bytes : Nat → BitVec 8,
      memRead32 regions mem a = wordOfBytes (bytes 3) (bytes 2) (bytes 1) (bytes 0) ∧
        ∀ k < 4, bytes k = bytesAt regions mem a k := h.memRead32_bytes hr (by decide) ha
  rw [hread]
  constructor
  · rintro rfl k hk
    rw [byteOf_wordOfBytes bytes hk, hbytes k hk]
  · intro hall
    refine eq_of_byteOf fun k hk => ?_
    rw [byteOf_wordOfBytes bytes hk, hbytes k hk, hall k hk]

/-- Machines with the same words have the same bytes. -/
theorem SameWords.byte (hsame : SameWords regions r mem read) {b : BitVec 32}
    (hb : r.HoldsByte b) :
    byteAt regions mem b = byteOf (read (wordOf b)) (b.toNat % 4) := by
  have hword := hal.word hb
  have hread := hsame (wordOf b) (and_not_3_aligned b) hword
  have hmod : b.toNat % 4 < 4 := Nat.mod_lt _ (by decide)
  have hbytes := (memRead32_eq_iff h hr hword _).mp hread _ hmod
  unfold bytesAt at hbytes
  rwa [wordOf_add_mod] at hbytes

/-- The byte `k` behind an address, from the word around the address and the next one. -/
theorem bytesAt_eq (hsame : SameWords regions r mem read) {a : BitVec 32} {k : Nat}
    (hk : k < 4) (hbyte : r.HoldsByte (a + BitVec.ofNat 32 k)) (ha : r.HoldsByte a) :
    bytesAt regions mem a k =
      if a.toNat % 4 + k < 4 then byteOf (read (wordOf a)) (a.toNat % 4 + k)
      else byteOf (read (wordOf a + 4)) (a.toNat % 4 + k - 4) := by
  have hbounded := h.bounded r hr
  have hsize := (h.size r hr).2
  unfold MemRegion.Bounded at hbounded
  have hhigh := ha.2
  have hsum : (a + BitVec.ofNat 32 k).toNat = a.toNat + k := by
    have hlow := hbyte.1
    rw [BitVec.toNat_add, BitVec.toNat_ofNat] at hlow ⊢
    omega
  have hnext : (wordOf a + 4).toNat = a.toNat - a.toNat % 4 + 4 := by
    have hword := hal.word ha
    rw [BitVec.toNat_add, wordOf_toNat]
    show (_ + 4) % 2 ^ 32 = _
    have := hword.2
    rw [wordOf_toNat] at this
    omega
  unfold bytesAt
  rw [SameWords.byte h hr hal hsame hbyte, hsum]
  split
  next hlt =>
      have hword : wordOf (a + BitVec.ofNat 32 k) = wordOf a := by
        apply BitVec.eq_of_toNat_eq
        rw [wordOf_toNat, wordOf_toNat, hsum]
        omega
      have hmod : (a.toNat + k) % 4 = a.toNat % 4 + k := by omega
      rw [hword, hmod]
  next hge =>
      have hword : wordOf (a + BitVec.ofNat 32 k) = wordOf a + 4 := by
        apply BitVec.eq_of_toNat_eq
        rw [wordOf_toNat, hnext, hsum]
        omega
      have hmod : (a.toNat + k) % 4 = a.toNat % 4 + k - 4 := by omega
      rw [hword, hmod]

end Words

/-! ## Loads -/

/-- The byte `k` behind the offset `o` in the word `v`, which is followed by `next`. -/
def lane (v next : BitVec 32) (o k : Nat) : BitVec 8 :=
  if o + k < 4 then byteOf v (o + k) else byteOf next (o + k - 4)

/-- The word is already the value of a load at the offset `o`: at offset 0 it is small
enough, behind it it is all zeros or, with a sign, all ones; but for a half that reaches
into the next word. -/
def LoadOp.Fits (v next : BitVec 32) (o : Nat) : LoadOp → Prop
  | .lb => if o = 0 then -128 ≤ v.toInt ∧ v.toInt < 128 else v = 0 ∨ v = -1
  | .lbu => if o = 0 then v.toNat < 256 else v = 0
  | .lh =>
      if o = 0 then -32768 ≤ v.toInt ∧ v.toInt < 32768
      else if o = 3 then v = (byteOf next 0 ++ byteOf v 3).signExtend 32
      else v = 0 ∨ v = -1
  | .lhu =>
      if o = 0 then v.toNat < 65536
      else if o = 3 then v = (byteOf next 0).setWidth 32 <<< 8
      else v = 0
  | .lw => True

instance (v next : BitVec 32) (o : Nat) (op : LoadOp) : Decidable (op.Fits v next o) :=
  match op with
  | .lb | .lbu | .lh | .lhu => inferInstanceAs (Decidable (ite _ _ _))
  | .lw => inferInstanceAs (Decidable True)

section Halves

variable (v : BitVec 32)

/-- A half inside a word is a field. -/
theorem half_eq (k : Nat) : byteOf v (k + 1) ++ byteOf v k = v.extractLsb' (8 * k) 16 :=
  BitVec.extractLsb'_append_extractLsb'_eq_extractLsb' rfl

/-- A half that reaches into the next word. -/
theorem split_half_setWidth_iff (x : BitVec 8) :
    v = (x ++ byteOf v 3).setWidth 32 ↔ v = x.setWidth 32 <<< 8 := by
  obtain ⟨hv, hv3, hv2, hv1, hv0⟩ := toNat_bytes v
  have hx := x.isLt
  have hshift : v = x.setWidth 32 <<< 8 ↔ v.toNat = x.toNat * 256 := by
    rw [← BitVec.toNat_inj, BitVec.toNat_shiftLeft, BitVec.toNat_setWidth_of_le (by decide),
      Nat.shiftLeft_eq]
    omega
  rw [← BitVec.toNat_inj, BitVec.toNat_setWidth_of_le (by decide), toNat_append_eq, hshift]
  omega

end Halves

/-- When the load of a word is the load of a part of it. -/
theorem LoadOp.fits_iff {op : LoadOp} (hop : op ≠ .lw) (v next : BitVec 32) {o : Nat}
    (ho : o < 4) : v = op.result (lane v next o) ↔ op.Fits v next o := by
  have hlane : lane v next o 0 = byteOf v o := if_pos ho
  have hhalf : o < 3 → lane v next o 1 ++ lane v next o 0 = v.extractLsb' (8 * o) 16 := by
    intro h3
    have hlane' : lane v next o 1 = byteOf v (o + 1) := if_pos (by omega)
    rw [hlane, hlane', half_eq]
  cases op with
  | lw => exact absurd rfl hop
  | lb =>
      show v = (lane v next o 0).signExtend 32 ↔ _
      rw [hlane, Fits]
      by_cases h0 : o = 0
      · subst h0
        exact eq_signExtend_low_iff v (by decide)
      · rw [if_neg h0]
        exact eq_signExtend_field_iff v (by omega) (by decide) (by omega)
  | lbu =>
      show v = (lane v next o 0).setWidth 32 ↔ _
      rw [hlane, Fits]
      by_cases h0 : o = 0
      · subst h0
        exact eq_setWidth_low_iff v
      · rw [if_neg h0]
        exact eq_setWidth_field_iff v (by omega)
  | lh =>
      show v = (lane v next o 1 ++ lane v next o 0).signExtend 32 ↔ _
      by_cases h3 : o = 3
      · subst h3
        exact Iff.rfl
      · rw [hhalf (by omega), Fits, if_neg h3]
        by_cases h0 : o = 0
        · subst h0
          exact eq_signExtend_low_iff v (by decide)
        · rw [if_neg h0]
          exact eq_signExtend_field_iff v (by omega) (by decide) (by omega)
  | lhu =>
      show v = (lane v next o 1 ++ lane v next o 0).setWidth 32 ↔ _
      by_cases h3 : o = 3
      · subst h3
        exact split_half_setWidth_iff v (byteOf next 0)
      · rw [hhalf (by omega), Fits, if_neg h3]
        by_cases h0 : o = 0
        · subst h0
          exact eq_setWidth_low_iff v
        · rw [if_neg h0]
          exact eq_setWidth_field_iff v (by omega)

/-! ## Stores -/

/-- The word `v`, which replaces `w` in front of `next`, is what the store of `x` at the
offset `o` makes of `w`, and the bytes that the store puts behind it, should the region go
on there, are in `next` already. -/
structure StoreOp.Fits (x : StoreOp) (v w next : BitVec 32) (o : Nat) (more : Prop) :
    Prop where
  low : ∀ k < o, byteOf v k = byteOf w k
  high : ∀ k < 4, o ≤ k → byteOf v k = byteOf (x.masked v) (k - o)
  behind : more → ∀ k < o, byteOf next k = byteOf (x.masked v) (4 - o + k)

section Stores

variable {regions : List MemRegion} (h : WellFormed regions) {r : MemRegion}
  (hr : r ∈ regions) (hal : r.WordAligned) {mem : Memory} {read : BitVec 32 → BitVec 32}
  {a : BitVec 32} (ha : r.HoldsByte a)

include h hr ha

/-- The bytes of a word after a write. -/
theorem bytesAt_memWrite32 {b : BitVec 32} (hb : r.HoldsBytes b 4) (m : BitVec 32) {k : Nat}
    (hk : k < 4) :
    bytesAt regions (memWrite32 regions mem a m) b k =
      if a.toNat ≤ b.toNat + k ∧ b.toNat + k < a.toNat + 4 then
        byteOf m (b.toNat + k - a.toNat)
      else bytesAt regions mem b k := by
  have hbounded := h.bounded r hr
  have hsize := (h.size r hr).2
  have hbyte := hb.byte hbounded hk
  obtain ⟨hlow, hhigh⟩ := hb
  obtain ⟨hlow', hhigh'⟩ := ha
  unfold MemRegion.Bounded at hbounded
  have hsum : (b + BitVec.ofNat 32 k).toNat = b.toNat + k := by
    rw [BitVec.toNat_add, BitVec.toNat_ofNat]
    omega
  unfold bytesAt
  rw [h.byteAt_memWrite32 hr mem ⟨hlow', hhigh'⟩]
  by_cases hin : a.toNat ≤ b.toNat + k ∧ b.toNat + k < a.toNat + 4
  · have hdist : (b + BitVec.ofNat 32 k - a).toNat = b.toNat + k - a.toNat := by
      rw [BitVec.toNat_sub, hsum]
      omega
    rw [if_pos hin, hdist, if_pos ⟨hbyte, by omega⟩]
    rfl
  · have hfar : ¬ (b + BitVec.ofNat 32 k - a).toNat < 4 := by
      rw [BitVec.toNat_sub, hsum]
      omega
    rw [if_neg hin, if_neg fun hc => hfar hc.2]

include hal

/-- The word around the address of a write. -/
theorem word_memWrite32_iff (hsame : SameWords regions r mem read) (m v : BitVec 32) :
    memRead32 regions (memWrite32 regions mem a m) (wordOf a) = v ↔
      (∀ k < a.toNat % 4, byteOf v k = byteOf (read (wordOf a)) k) ∧
        ∀ k < 4, a.toNat % 4 ≤ k → byteOf v k = byteOf m (k - a.toNat % 4) := by
  have hword := hal.word ha
  have hof := wordOf_toNat a
  have hold := (memRead32_eq_iff h hr hword _).mp (hsame _ (and_not_3_aligned a) hword)
  rw [memRead32_eq_iff h hr hword]
  constructor
  · intro hbytes
    refine ⟨fun k hk => ?_, fun k hk hle => ?_⟩
    · have hk4 : k < 4 := by omega
      rw [← hbytes k hk4, bytesAt_memWrite32 h hr ha hword m hk4, if_neg (by omega), hold k hk4]
    · have hidx : (wordOf a).toNat + k - a.toNat = k - a.toNat % 4 := by omega
      rw [← hbytes k hk, bytesAt_memWrite32 h hr ha hword m hk, if_pos (by omega), hidx]
  · rintro ⟨hlow, hhigh⟩ k hk
    rw [bytesAt_memWrite32 h hr ha hword m hk]
    by_cases hle : a.toNat % 4 ≤ k
    · have hidx : (wordOf a).toNat + k - a.toNat = k - a.toNat % 4 := by omega
      rw [if_pos (by omega), hidx, hhigh k hk hle]
    · rw [if_neg (by omega), hold k hk, hlow k (by omega)]

omit hal in
/-- The word behind it. -/
theorem next_memWrite32_iff (hsame : SameWords regions r mem read)
    (hnext : (wordOf a + 4).toNat = a.toNat - a.toNat % 4 + 4)
    (hword : r.HoldsBytes (wordOf a + 4) 4) (m : BitVec 32) :
    memRead32 regions (memWrite32 regions mem a m) (wordOf a + 4) = read (wordOf a + 4) ↔
      ∀ k < a.toNat % 4,
        byteOf (read (wordOf a + 4)) k = byteOf m (4 - a.toNat % 4 + k) := by
  have haligned : (wordOf a + 4) &&& 3 = 0 := by
    rw [and_3_eq_zero_iff, hnext]
    omega
  have hold := (memRead32_eq_iff h hr hword _).mp (hsame _ haligned hword)
  have hidx : ∀ k, (wordOf a + 4).toNat + k - a.toNat = 4 - a.toNat % 4 + k := by
    intro k
    omega
  rw [memRead32_eq_iff h hr hword]
  constructor
  · intro hbytes k hk
    have hk4 : k < 4 := by omega
    rw [← hbytes k hk4, bytesAt_memWrite32 h hr ha hword m hk4, if_pos (by omega), hidx]
  · intro hbytes k hk
    rw [bytesAt_memWrite32 h hr ha hword m hk]
    by_cases hlt : k < a.toNat % 4
    · rw [if_pos (by omega), hidx, hbytes k hlt]
    · rw [if_neg (by omega), hold k hk]

/-- A store of the simulators beside a machine that replaces the word around its address. -/
theorem storeFits_iff (hsame : SameWords regions r mem read) (x : StoreOp)
    (v : BitVec 32) :
    SameWords regions r (memWrite32 regions mem a (x.masked v))
        (Function.update read (wordOf a) v) ↔
      x.Fits v (read (wordOf a)) (read (wordOf a + 4)) (a.toNat % 4)
        (r.HoldsByte (wordOf a + 4)) := by
  have hword := hal.word ha
  have hof := wordOf_toNat a
  have hlt := a.isLt
  have hbounded := h.bounded r hr
  unfold MemRegion.Bounded at hbounded
  have hnext : (wordOf a + 4).toNat = a.toNat - a.toNat % 4 + 4 := by
    have hend := hword.2
    rw [BitVec.toNat_add, hof]
    show (_ + 4) % 2 ^ 32 = _
    omega
  have hmore : r.HoldsByte (wordOf a + 4) → r.HoldsBytes (wordOf a + 4) 4 := by
    rintro ⟨hlow, hhigh⟩
    obtain ⟨hstart, hsize⟩ := hal
    exact ⟨hlow, by omega⟩
  have hne : wordOf a + 4 ≠ wordOf a := by
    intro heq
    rw [heq] at hnext
    omega
  have hinWord := word_memWrite32_iff h hr hal ha hsame (x.masked v) v
  constructor
  · intro hafter
    have hat := hafter (wordOf a) (and_not_3_aligned a) hword
    rw [Function.update_self] at hat
    obtain ⟨hlow, hhigh⟩ := hinWord.mp hat
    refine ⟨hlow, hhigh, fun hbehind => ?_⟩
    have hword' := hmore hbehind
    refine (next_memWrite32_iff h hr ha hsame hnext hword' (x.masked v)).mp ?_
    have haligned : (wordOf a + 4) &&& 3 = 0 := by
      rw [and_3_eq_zero_iff, hnext]
      omega
    rw [hafter _ haligned hword', Function.update_of_ne hne]
  · rintro ⟨hlow, hhigh, hbehind⟩ b hb hholds
    by_cases heq : b = wordOf a
    · subst heq
      rw [Function.update_self]
      exact hinWord.mpr ⟨hlow, hhigh⟩
    · rw [Function.update_of_ne heq]
      by_cases heq' : b = wordOf a + 4
      · subst heq'
        exact (next_memWrite32_iff h hr ha hsame hnext hholds (x.masked v)).mpr
          (hbehind (hholds.first (by decide)))
      · -- words apart from both share no byte with the store
        rw [and_3_eq_zero_iff] at hb
        have hb₁ : b.toNat ≠ (wordOf a).toNat := fun hn => heq (BitVec.eq_of_toNat_eq hn)
        have hb₂ : b.toNat ≠ (wordOf a + 4).toNat := fun hn => heq' (BitVec.eq_of_toNat_eq hn)
        have hlt' := hholds.2
        have hend := ha.2
        rw [memRead32_memWrite32_of_disjoint (by rw [BitVec.toNat_sub]; omega)
          (by rw [BitVec.toNat_sub]; omega)]
        exact hsame b ((and_3_eq_zero_iff b).mpr hb) hholds

end Stores

end SimpleCpu.Iss
