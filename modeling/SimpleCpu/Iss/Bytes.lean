import SimpleCpu.Iss.Bounds

/-!
# Memory as bytes

What each address holds, and what `mem_read_32` and `mem_write_32` do to it.  A word is
read from one region's buffer, so its bytes are those behind the address only as far as
the region goes; a write stops being visible there too.

* `WellFormed.memRead32_bytes`: the bytes of a word that is read.
* `WellFormed.byteAt_memWrite32`: every address after a write.
* `LoadOp.result`: the values of the loads.
-/

namespace SimpleCpu.Iss

open SimpleCpu.Bits

/-! ## Regions -/

/-- The `n` bytes from `a` on lie inside the region. -/
def MemRegion.HoldsBytes (r : MemRegion) (a : BitVec 32) (n : Nat) : Prop :=
  r.start.toNat ≤ a.toNat ∧ a.toNat + n ≤ r.start.toNat + r.size.toNat

instance (r : MemRegion) (a : BitVec 32) (n : Nat) : Decidable (r.HoldsBytes a n) :=
  inferInstanceAs (Decidable (_ ∧ _))

/-- One of the bytes. -/
theorem MemRegion.HoldsBytes.byte {r : MemRegion} (hbounded : r.Bounded) {a : BitVec 32}
    {n k : Nat} (h : r.HoldsBytes a n) (hk : k < n) : r.HoldsByte (a + BitVec.ofNat 32 k) := by
  obtain ⟨hlow, hhigh⟩ := h
  unfold MemRegion.Bounded at hbounded
  have hsum : (a + BitVec.ofNat 32 k).toNat = a.toNat + k := by
    rw [BitVec.toNat_add, BitVec.toNat_ofNat]
    omega
  exact ⟨by omega, by omega⟩

/-- The first of the bytes. -/
theorem MemRegion.HoldsBytes.first {r : MemRegion} {a : BitVec 32} {n : Nat}
    (h : r.HoldsBytes a n) (hn : 0 < n) : r.HoldsByte a :=
  ⟨h.1, by have := h.2; omega⟩

section Buffers

variable {regions : List MemRegion} (h : WellFormed regions) {r : MemRegion} {a b : BitVec 32}

include h

/-- No other region holds a byte of this one. -/
theorem WellFormed.region_unique (hr : r ∈ regions) {r' : MemRegion} (hr' : r' ∈ regions)
    (ha : r.HoldsByte a) (ha' : r'.HoldsByte a) : r' = r := by
  obtain ⟨hlow, hhigh⟩ := ha
  obtain ⟨hlow', hhigh'⟩ := ha'
  rcases h.disjoint r hr r' hr' with heq | hsep | hsep
  · exact heq.symm
  · omega
  · omega

/-- The search decides like the interval. -/
theorem WellFormed.contains_iff (hr : r ∈ regions) (a : BitVec 32) :
    r.contains a = true ↔ r.HoldsByte a :=
  MemRegion.contains_iff (h.bounded r hr) a

/-- The search stops at the region that holds the byte. -/
theorem WellFormed.exists_buffer (hr : r ∈ regions) (ha : r.HoldsByte a) :
    ∃ i, regions[i]? = some r ∧ findRegion a regions 0 = some (i, r.start) := by
  cases hfind : findRegion a regions 0 with
  | none =>
      have houtside := (findRegion_eq_none_iff a regions 0).mp hfind r hr
      exact absurd (houtside.symm.trans ((h.contains_iff hr a).mpr ha)) Bool.false_ne_true
  | some found =>
      obtain ⟨i, start⟩ := found
      obtain ⟨r', hget, -, rfl, hcontains⟩ := exists_region regions 0 hfind
      rw [Nat.sub_zero] at hget
      have hr' : r' ∈ regions := List.mem_of_getElem? hget
      obtain rfl := h.region_unique hr hr' ha ((h.contains_iff hr' a).mp hcontains)
      exact ⟨i, hget, rfl⟩

omit h in
/-- The search depends on the tests alone. -/
theorem findRegion_congr {rs : List MemRegion} (htest : ∀ r ∈ rs, r.contains a = r.contains b)
    (i : Nat) : findRegion a rs i = findRegion b rs i := by
  induction rs generalizing i with
  | nil => rfl
  | cons r rs ih =>
      obtain ⟨hhead, htail⟩ := List.forall_mem_cons.mp htest
      unfold findRegion
      rw [hhead, ih htail]

/-- The bytes of one region lie in one buffer. -/
theorem WellFormed.findRegion_eq (hr : r ∈ regions) (ha : r.HoldsByte a) (hb : r.HoldsByte b) :
    findRegion a regions 0 = findRegion b regions 0 := by
  refine findRegion_congr (fun r' hr' => ?_) 0
  rw [Bool.eq_iff_iff, h.contains_iff hr', h.contains_iff hr']
  constructor
  · intro ha'
    obtain rfl := h.region_unique hr hr' ha ha'
    exact hb
  · intro hb'
    obtain rfl := h.region_unique hr hr' hb hb'
    exact ha

/-- A byte that is found in the region's buffer lies in the region. -/
theorem WellFormed.holdsByte_of_findRegion {i : Nat} {start : BitVec 32}
    (hget : regions[i]? = some r) (hfind : findRegion b regions 0 = some (i, start)) :
    start = r.start ∧ r.HoldsByte b := by
  obtain ⟨r', hget', -, rfl, hcontains⟩ := exists_region regions 0 hfind
  rw [Nat.sub_zero, hget] at hget'
  obtain rfl := Option.some.inj hget'
  exact ⟨rfl, (h.contains_iff (List.mem_of_getElem? hget) b).mp hcontains⟩

end Buffers

/-! ## Bytes -/

/-- What an address holds, zero outside the regions. -/
def byteAt (regions : List MemRegion) (mem : Memory) (address : BitVec 32) : BitVec 8 :=
  match findRegion address regions 0 with
  | some (i, start) => mem i (address - start)
  | none => 0

/-- The bytes from an address on. -/
def bytesAt (regions : List MemRegion) (mem : Memory) (address : BitVec 32) (k : Nat) :
    BitVec 8 :=
  byteAt regions mem (address + BitVec.ofNat 32 k)

theorem byteAt_of_found {regions : List MemRegion} {mem : Memory} {a start : BitVec 32} {i : Nat}
    (hfind : findRegion a regions 0 = some (i, start)) :
    byteAt regions mem a = mem i (a - start) := by
  unfold byteAt
  rw [hfind]

/-- A word is its bytes, the first one the least significant. -/
theorem wordOfBytes_eq (b3 b2 b1 b0 : BitVec 8) :
    wordOfBytes b3 b2 b1 b0 = b3 ++ b2 ++ b1 ++ b0 := by
  apply BitVec.eq_of_getLsbD_eq
  intro i hi
  simp only [wordOfBytes, BitVec.getLsbD_or, BitVec.getLsbD_shiftLeft, BitVec.getLsbD_setWidth,
    BitVec.getLsbD_append]
  interval_cases i <;> simp

/-- The low byte of a word. -/
theorem wordOfBytes_and_FF (b3 b2 b1 b0 : BitVec 8) :
    wordOfBytes b3 b2 b1 b0 &&& 0xFF = b0.setWidth 32 := by
  apply BitVec.eq_of_getLsbD_eq
  intro i hi
  simp only [wordOfBytes, BitVec.getLsbD_or, BitVec.getLsbD_and, BitVec.getLsbD_shiftLeft,
    BitVec.getLsbD_setWidth]
  interval_cases i <;> simp

/-- The low half of a word. -/
theorem wordOfBytes_and_FFFF (b3 b2 b1 b0 : BitVec 8) :
    wordOfBytes b3 b2 b1 b0 &&& 0xFFFF = (b1 ++ b0).setWidth 32 := by
  apply BitVec.eq_of_getLsbD_eq
  intro i hi
  simp only [wordOfBytes, BitVec.getLsbD_or, BitVec.getLsbD_and, BitVec.getLsbD_shiftLeft,
    BitVec.getLsbD_setWidth, BitVec.getLsbD_append]
  interval_cases i <;> simp

/-! ## Reads -/

section Access

variable {regions : List MemRegion} (h : WellFormed regions) {r : MemRegion} {mem : Memory}
  {a : BitVec 32}

include h

/-- The bytes of a word that is read are those behind its address, as far as the region
goes. -/
theorem WellFormed.memRead32_bytes (hr : r ∈ regions) {n : Nat} (hpos : 0 < n)
    (hn : r.HoldsBytes a n) :
    ∃ b : Nat → BitVec 8, memRead32 regions mem a = wordOfBytes (b 3) (b 2) (b 1) (b 0) ∧
      ∀ k < n, b k = bytesAt regions mem a k := by
  obtain ⟨i, -, hfind⟩ := h.exists_buffer hr (hn.first hpos)
  refine ⟨fun k => mem i (a - r.start + BitVec.ofNat 32 k), ?_, fun k hk => ?_⟩
  · unfold memRead32
    rw [hfind]
    rfl
  · have hbyte := hn.byte (h.bounded r hr) hk
    have hfind' := (h.findRegion_eq hr hbyte (hn.first hpos)).trans hfind
    unfold bytesAt
    rw [byteAt_of_found hfind']
    exact congrArg (mem i) (BitVec.sub_add_comm ..)

/-! ## Writes -/

omit h in
/-- The four bytes that a write puts into the buffer. -/
theorem memWrite32_byte {i : Nat} {start p v : BitVec 32}
    (hfind : findRegion a regions 0 = some (i, start)) (hp : (p - (a - start)).toNat < 4) :
    memWrite32 regions mem a v i p = v.extractLsb' (8 * (p - (a - start)).toNat) 8 := by
  have hmask : ∀ n, (v >>> n &&& 0xFF).setWidth 8 = v.extractLsb' n 8 := fun n => by
    rw [show (0xFF : BitVec 32) = BitVec.ofNat 32 (2 ^ 8 - 1) from rfl, shr_and_mask v n 8,
      setWidth_setWidth_self _ (by decide)]
  unfold memWrite32
  rw [hfind]
  simp only [hmask]
  generalize ho : a - start = o at hp ⊢
  generalize hk : (p - o).toNat = k at hp ⊢
  have hsum : p = o + BitVec.ofNat 32 k := by
    rw [← hk]
    bv_omega
  subst hsum
  have h3 : k = 0 ∨ k = 1 ∨ k = 2 ∨ k = 3 := by omega
  rcases h3 with rfl | rfl | rfl | rfl
  · exact setByte_eq ..
  · rw [setByte_ne_offset (by bv_omega)]
    exact setByte_eq ..
  · rw [setByte_ne_offset (by bv_omega), setByte_ne_offset (by bv_omega)]
    exact setByte_eq ..
  · rw [setByte_ne_offset (by bv_omega), setByte_ne_offset (by bv_omega),
      setByte_ne_offset (by bv_omega)]
    exact setByte_eq ..

/-- What every address holds after a write: the four bytes from its address on as far as
the region goes, and elsewhere what it held. -/
theorem WellFormed.byteAt_memWrite32 (hr : r ∈ regions) (mem : Memory) (ha : r.HoldsByte a)
    (v b : BitVec 32) :
    byteAt regions (memWrite32 regions mem a v) b =
      if r.HoldsByte b ∧ (b - a).toNat < 4 then v.extractLsb' (8 * (b - a).toNat) 8
      else byteAt regions mem b := by
  obtain ⟨i, hget, hfind⟩ := h.exists_buffer hr ha
  have hdist : b - r.start - (a - r.start) = b - a := by bv_omega
  by_cases hb : r.HoldsByte b
  · have hfindb := (h.findRegion_eq hr hb ha).trans hfind
    rw [byteAt_of_found hfindb, byteAt_of_found hfindb]
    by_cases hlt : (b - a).toNat < 4
    · rw [if_pos ⟨hb, hlt⟩, memWrite32_byte hfind (by rw [hdist]; exact hlt), hdist]
    · rw [if_neg fun hc => hlt hc.2]
      refine memWrite32_byte_of_disjoint hfind fun _ => ?_
      rw [hdist]
      omega
  · rw [if_neg fun hc => hb hc.1]
    cases hfindb : findRegion b regions 0 with
    | none =>
        unfold byteAt
        rw [hfindb]
    | some found =>
        obtain ⟨j, start⟩ := found
        rw [byteAt_of_found hfindb, byteAt_of_found hfindb]
        refine memWrite32_byte_of_disjoint hfind fun hij => ?_
        subst hij
        exact absurd (h.holdsByte_of_findRegion hget hfindb).2 hb

end Access

/-! ## Loads -/

inductive LoadOp where
  | lb | lh | lw | lbu | lhu
  deriving DecidableEq, Repr

/-- The number of bytes a load addresses. -/
def LoadOp.size : LoadOp → Nat
  | .lb | .lbu => 1
  | .lh | .lhu => 2
  | .lw => 4

/-- The value of a load, from the bytes it addresses. -/
def LoadOp.result (bytes : Nat → BitVec 8) : LoadOp → BitVec 32
  | .lb => (bytes 0).signExtend 32
  | .lh => (bytes 1 ++ bytes 0).signExtend 32
  | .lw => bytes 3 ++ bytes 2 ++ bytes 1 ++ bytes 0
  | .lbu => (bytes 0).setWidth 32
  | .lhu => (bytes 1 ++ bytes 0).setWidth 32

theorem LoadOp.size_pos (op : LoadOp) : 0 < op.size := by
  cases op <;> decide

/-- No other bytes matter. -/
theorem LoadOp.result_congr {op : LoadOp} {b b' : Nat → BitVec 8}
    (hb : ∀ k < op.size, b k = b' k) : op.result b = op.result b' := by
  cases op with
  | lb | lbu =>
      unfold result
      rw [hb 0 (by decide)]
  | lh | lhu =>
      unfold result
      rw [hb 0 (by decide), hb 1 (by decide)]
  | lw =>
      unfold result
      rw [hb 0 (by decide), hb 1 (by decide), hb 2 (by decide), hb 3 (by decide)]

/-- What the simulators make of the word that is read: the bytes that are not addressed
are masked out, and a sign is extended with a constant of the table.  The two differ in the
one for a half. -/
def LoadOp.narrow (halfShamt memRead : BitVec 32) : LoadOp → BitVec 32
  | .lb =>
      let memContent := memRead &&& 0xFF
      if memContent >>> 7 ≠ 0 then memContent ||| shiftConst 24 else memContent
  | .lh =>
      let memContent := memRead &&& 0xFFFF
      if memContent >>> 15 ≠ 0 then memContent ||| shiftConst halfShamt else memContent
  | .lw => memRead
  | .lbu => memRead &&& 0xFF
  | .lhu => memRead &&& 0xFFFF

section Narrow

variable (b : Nat → BitVec 8)

/-- With the constant for 16 bits every load is right. -/
theorem LoadOp.narrow_16 (op : LoadOp) :
    op.narrow 16 (wordOfBytes (b 3) (b 2) (b 1) (b 0)) = op.result b := by
  cases op with
  | lb =>
      simp only [narrow, result, wordOfBytes_and_FF]
      exact extend_shr_eq (k := 7) (by decide) (b 0)
  | lh =>
      simp only [narrow, result, wordOfBytes_and_FFFF]
      exact extend_shr_eq (k := 15) (by decide) (b 1 ++ b 0)
  | lw => exact wordOfBytes_eq ..
  | lbu => exact wordOfBytes_and_FF ..
  | lhu => exact wordOfBytes_and_FFFF ..

/-- Only a half uses its constant. -/
theorem LoadOp.narrow_of_ne {op : LoadOp} (hop : op ≠ .lh) (m n word : BitVec 32) :
    op.narrow m word = op.narrow n word := by
  cases op with
  | lh => exact absurd rfl hop
  | lb | lw | lbu | lhu => rfl

/-- Filling a half from bit 12 on. -/
theorem half_or_toNat (x : BitVec 16) :
    (x.setWidth 32 ||| 0xFFFFF000).toNat = 0xFFFFF000 + x.toNat % 4096 := by
  have hlow : (x.setWidth 32 &&& 0xFFF#32).toNat = x.toNat % 4096 := by
    refine (BitVec.toNat_and _ 0xFFF#32).trans ?_
    refine (Nat.and_two_pow_sub_one_eq_mod _ 12).trans ?_
    rw [BitVec.toNat_setWidth_of_le (by decide)]
  have hor : x.setWidth 32 ||| 0xFFFFF000 = 0xFFFFF000#32 ||| (x.setWidth 32 &&& 0xFFF#32) := by
    apply BitVec.eq_of_getLsbD_eq
    intro i hi
    simp only [BitVec.getLsbD_or, BitVec.getLsbD_and, BitVec.getLsbD_setWidth]
    interval_cases i <;> simp
  have hdisj : 0xFFFFF000#32 &&& (x.setWidth 32 &&& 0xFFF#32) = 0#32 := by
    apply BitVec.eq_of_getLsbD_eq
    intro i hi
    simp only [BitVec.getLsbD_and, BitVec.getLsbD_setWidth]
    interval_cases i <;> simp
  rw [hor, ← BitVec.add_eq_or_of_and_eq_zero _ _ hdisj, BitVec.toNat_add, hlow]
  have hconst : (0xFFFFF000#32).toNat = 0xFFFFF000 := rfl
  omega

/-- With the constant for 12 bits a half is right unless it is below `-4096`. -/
theorem LoadOp.narrow_20_iff (op : LoadOp) :
    op.narrow 20 (wordOfBytes (b 3) (b 2) (b 1) (b 0)) = op.result b ↔
      (op = .lh → -4096 ≤ (b 1 ++ b 0).toInt) := by
  by_cases hop : op = .lh
  · subst hop
    have hright := narrow_16 b .lh
    simp only [narrow, result, wordOfBytes_and_FFFF, true_implies] at hright ⊢
    generalize b 1 ++ b 0 = x at hright ⊢
    have hx := x.isLt
    have htop : x.setWidth 32 >>> 15 ≠ 0 ↔ 2 ^ 15 ≤ x.toNat := by
      rw [← not_lt, not_iff_not, ← BitVec.toNat_inj, BitVec.toNat_ushiftRight,
        BitVec.toNat_setWidth_of_le (by decide), Nat.shiftRight_eq_div_pow]
      exact Nat.div_eq_zero_iff_lt (by decide)
    rw [BitVec.toInt_eq_toNat_cond]
    by_cases hneg : 2 ^ 15 ≤ x.toNat
    · have hsign : (x.signExtend 32).toNat = 0xFFFF0000 + x.toNat := by
        have hmsb : x.msb = true := by
          rw [BitVec.msb_eq_decide, decide_eq_true_iff]
          omega
        rw [BitVec.toNat_signExtend, hmsb, BitVec.toNat_setWidth_of_le (by decide)]
        simp
        omega
      rw [if_pos (htop.mpr hneg), if_neg (by omega), ← BitVec.toNat_inj, hsign]
      refine (Eq.congr_left (half_or_toNat x)).trans ?_
      omega
    · rw [if_neg (mt htop.mp hneg)] at hright ⊢
      rw [if_pos (by omega)]
      exact iff_of_true hright (by omega)
  · rw [narrow_of_ne hop 20 16, narrow_16]
    exact iff_of_true rfl fun h => absurd h hop

end Narrow

/-! ## Stores -/

inductive StoreOp where
  | sb | sh | sw
  deriving DecidableEq, Repr

/-- The number of bytes a store addresses. -/
def StoreOp.size : StoreOp → Nat
  | .sb => 1
  | .sh => 2
  | .sw => 4

/-- What the simulators write, always as four bytes. -/
def StoreOp.masked (value : BitVec 32) : StoreOp → BitVec 32
  | .sb => value &&& 0xFF
  | .sh => value &&& 0xFFFF
  | .sw => value

theorem StoreOp.size_pos (op : StoreOp) : 0 < op.size := by
  cases op <;> decide

/-- The bytes that a store addresses are those of the value, the others zero. -/
theorem StoreOp.masked_byte (op : StoreOp) (value : BitVec 32) {k : Nat} (hk : k < 4) :
    (op.masked value).extractLsb' (8 * k) 8 =
      if k < op.size then value.extractLsb' (8 * k) 8 else 0 := by
  have hmask : ∀ n, (value &&& BitVec.ofNat 32 (2 ^ (8 * n) - 1)).extractLsb' (8 * k) 8 =
      if k < n then value.extractLsb' (8 * k) 8 else 0 := by
    intro n
    apply BitVec.eq_of_getLsbD_eq
    intro i hi
    rw [BitVec.getLsbD_extractLsb', BitVec.getLsbD_and, BitVec.getLsbD_ofNat,
      Nat.testBit_two_pow_sub_one]
    have h32 : 8 * k + i < 32 := by omega
    by_cases hkn : k < n
    · have hin : 8 * k + i < 8 * n := by omega
      rw [if_pos hkn, BitVec.getLsbD_extractLsb', decide_eq_true h32, decide_eq_true hin,
        Bool.and_true, Bool.and_true]
    · have hout : ¬ 8 * k + i < 8 * n := by omega
      rw [if_neg hkn, decide_eq_false hout, Bool.and_false, Bool.and_false, Bool.and_false]
      exact (BitVec.getLsbD_zero ..).symm
  cases op with
  | sb => exact hmask 1
  | sh => exact hmask 2
  | sw => exact (if_pos hk).symm

section Stores

variable {regions : List MemRegion} (h : WellFormed regions) {r : MemRegion} {a : BitVec 32}
  {op : StoreOp}

/-- From `mem` to `mem'` the `n` bytes from `a` on have become those of the value, and
every other byte is the same. -/
structure StoresBytes (regions : List MemRegion) (mem mem' : Memory) (a : BitVec 32) (n : Nat)
    (value : BitVec 32) : Prop where
  stored : ∀ k < n, bytesAt regions mem' a k = value.extractLsb' (8 * k) 8
  frame : ∀ b, n ≤ (b - a).toNat → byteAt regions mem' b = byteAt regions mem b

include h

/-- Four bytes written for fewer clear the following ones of the region. -/
theorem WellFormed.storesBytes_iff (hr : r ∈ regions) (mem : Memory)
    (hn : r.HoldsBytes a op.size) (value : BitVec 32) :
    StoresBytes regions mem (memWrite32 regions mem a (op.masked value)) a op.size value ↔
      ∀ k, op.size ≤ k → k < 4 → r.HoldsByte (a + BitVec.ofNat 32 k) →
        bytesAt regions mem a k = 0 := by
  have hwrite := h.byteAt_memWrite32 hr mem (hn.first op.size_pos) (op.masked value)
  have hdist : ∀ k < 4, (a + BitVec.ofNat 32 k - a).toNat = k := by
    intro k hk
    bv_omega
  constructor
  · intro hstore k hsize hk hbyte
    have hkeep := hstore.frame (a + BitVec.ofNat 32 k) (by rw [hdist k hk]; exact hsize)
    rw [hwrite, hdist k hk, if_pos ⟨hbyte, hk⟩, op.masked_byte value hk,
      if_neg (by omega)] at hkeep
    exact hkeep.symm
  · intro hzero
    have hsize4 : op.size ≤ 4 := by cases op <;> decide
    refine ⟨fun k hk => ?_, fun b hb => ?_⟩
    · have hbyte := hn.byte (h.bounded r hr) hk
      have hk4 : k < 4 := by omega
      unfold bytesAt
      rw [hwrite, hdist k hk4, if_pos ⟨hbyte, hk4⟩, op.masked_byte value hk4, if_pos hk]
    · rw [hwrite]
      split
      next hin =>
        have hb' : a + BitVec.ofNat 32 (b - a).toNat = b := by bv_omega
        have hat := hzero (b - a).toNat hb hin.2 (by rw [hb']; exact hin.1)
        unfold bytesAt at hat
        rw [op.masked_byte value hin.2, if_neg (by omega), ← hat, hb']
      next => rfl

end Stores

end SimpleCpu.Iss
