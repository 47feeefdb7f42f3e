import Mathlib.Logic.Function.Basic
import Mathlib.Tactic.IntervalCases
import SimpleCpu.Bits.Fields

/-!
# The simulators' memory

Both simulators keep main memory in a table of regions, each a start address, a size
and a byte array, and share `mem_read_32` and `mem_write_32`: the first region that
contains the address is used, four bytes from it are read or written, least
significant first.  An address outside every region reads as zero and is not written.

The byte arrays are total functions of the offset: the three bytes that follow an
accepted address are always defined here, also past the end of a region.
-/

namespace SimpleCpu.Iss

open SimpleCpu.Bits

/-- One entry of `MEM_REGIONS`. -/
structure MemRegion where
  start : BitVec 32
  size : BitVec 32
  deriving DecidableEq, Repr

/-- The byte arrays, by region number and offset. -/
abbrev Memory := Nat → BitVec 32 → BitVec 8

/-- The test of the search loop. -/
def MemRegion.contains (r : MemRegion) (address : BitVec 32) : Bool :=
  r.start ≤ address && address < r.start + r.size

/-- The loop over `MEM_REGIONS`: the number and the start of the first region that
contains the address. -/
def findRegion (address : BitVec 32) : List MemRegion → Nat → Option (Nat × BitVec 32)
  | [], _ => none
  | r :: rs, i => if r.contains address then some (i, r.start)
      else findRegion address rs (i + 1)

/-- The test as an interval, for a region that does not wrap around. -/
theorem MemRegion.contains_iff {r : MemRegion} (h : r.start.toNat + r.size.toNat < 2 ^ 32)
    (address : BitVec 32) :
    r.contains address = true ↔
      r.start.toNat ≤ address.toNat ∧ address.toNat < r.start.toNat + r.size.toNat := by
  have hsum : (r.start + r.size).toNat = r.start.toNat + r.size.toNat := by
    rw [BitVec.toNat_add, Nat.mod_eq_of_lt h]
  unfold MemRegion.contains
  rw [Bool.and_eq_true, decide_eq_true_iff, decide_eq_true_iff, ← hsum]
  exact Iff.rfl

/-- The search stops at a region that contains the address. -/
theorem findRegion_of_contains {r : MemRegion} {address : BitVec 32}
    (h : r.contains address = true) (rs : List MemRegion) (i : Nat) :
    findRegion address (r :: rs) i = some (i, r.start) :=
  if_pos h

/-- The search goes on behind a region that does not. -/
theorem findRegion_of_not_contains {r : MemRegion} {address : BitVec 32}
    (h : ¬ r.contains address = true) (rs : List MemRegion) (i : Nat) :
    findRegion address (r :: rs) i = findRegion address rs (i + 1) :=
  if_neg h

/-- Four bytes as a word, the first byte the least significant. -/
def wordOfBytes (b3 b2 b1 b0 : BitVec 8) : BitVec 32 :=
  b3.setWidth 32 <<< 24 ||| b2.setWidth 32 <<< 16 ||| b1.setWidth 32 <<< 8 |||
    b0.setWidth 32 <<< 0

def memRead32 (regions : List MemRegion) (mem : Memory) (address : BitVec 32) :
    BitVec 32 :=
  match findRegion address regions 0 with
  | some (i, start) =>
      let offset := address - start
      wordOfBytes (mem i (offset + 3)) (mem i (offset + 2)) (mem i (offset + 1))
        (mem i (offset + 0))
  | none => 0

/-- One byte of one region replaced. -/
def Memory.setByte (mem : Memory) (i : Nat) (offset : BitVec 32) (value : BitVec 8) :
    Memory :=
  Function.update mem i (Function.update (mem i) offset value)

def memWrite32 (regions : List MemRegion) (mem : Memory) (address value : BitVec 32) :
    Memory :=
  match findRegion address regions 0 with
  | some (i, start) =>
      let offset := address - start
      (((mem.setByte i (offset + 3) ((value >>> 24 &&& 0xFF).setWidth 8)).setByte i
        (offset + 2) ((value >>> 16 &&& 0xFF).setWidth 8)).setByte i
        (offset + 1) ((value >>> 8 &&& 0xFF).setWidth 8)).setByte i
        (offset + 0) ((value >>> 0 &&& 0xFF).setWidth 8)
  | none => mem

/-! ## Bytes of a word -/

@[simp] theorem wordOfBytes_value (v : BitVec 32) :
    wordOfBytes ((v >>> 24 &&& 0xFF).setWidth 8) ((v >>> 16 &&& 0xFF).setWidth 8)
      ((v >>> 8 &&& 0xFF).setWidth 8) ((v >>> 0 &&& 0xFF).setWidth 8) = v := by
  apply BitVec.eq_of_getLsbD_eq
  intro i hi
  simp only [wordOfBytes, BitVec.getLsbD_or, BitVec.getLsbD_shiftLeft,
    BitVec.getLsbD_setWidth, BitVec.getLsbD_and, BitVec.getLsbD_ushiftRight]
  interval_cases i <;> simp

/-! ## Reading back -/

section Laws

variable {regions : List MemRegion} {mem : Memory} {a b v : BitVec 32}

theorem setByte_ne_region {i j : Nat} (h : j ≠ i) (o p : BitVec 32) (x : BitVec 8) :
    mem.setByte i o x j p = mem j p := by
  simp [Memory.setByte, Function.update_of_ne h]

@[simp] theorem setByte_eq {i : Nat} (o : BitVec 32) (x : BitVec 8) :
    mem.setByte i o x i o = x := by
  simp [Memory.setByte]

theorem setByte_ne_offset {i : Nat} {o p : BitVec 32} (h : p ≠ o) (x : BitVec 8) :
    mem.setByte i o x i p = mem i p := by
  simp [Memory.setByte, Function.update_of_ne h]

/-- A word written inside a region is read back. -/
theorem memRead32_memWrite32 {r : Nat × BitVec 32}
    (h : findRegion a regions 0 = some r) :
    memRead32 regions (memWrite32 regions mem a v) a = v := by
  obtain ⟨i, start⟩ := r
  simp only [memRead32, memWrite32, h]
  rw [setByte_ne_offset (o := a - start + 0) (p := a - start + 3) (by bv_omega),
    setByte_ne_offset (o := a - start + 1) (p := a - start + 3) (by bv_omega),
    setByte_ne_offset (o := a - start + 2) (p := a - start + 3) (by bv_omega),
    setByte_ne_offset (o := a - start + 0) (p := a - start + 2) (by bv_omega),
    setByte_ne_offset (o := a - start + 1) (p := a - start + 2) (by bv_omega),
    setByte_ne_offset (o := a - start + 0) (p := a - start + 1) (by bv_omega)]
  simp only [setByte_eq, wordOfBytes_value]

/-- A byte other than the four written ones is kept, whatever its region. -/
theorem memWrite32_byte_of_disjoint {i j : Nat} {start p : BitVec 32}
    (h : findRegion a regions 0 = some (i, start))
    (hs : j = i → 4 ≤ (p - (a - start)).toNat) :
    memWrite32 regions mem a v j p = mem j p := by
  simp only [memWrite32, h]
  by_cases hij : j = i
  · subst hij
    have hd := hs rfl
    rw [setByte_ne_offset (by bv_omega), setByte_ne_offset (by bv_omega),
      setByte_ne_offset (by bv_omega), setByte_ne_offset (by bv_omega)]
  · simp only [setByte_ne_region hij]

/-- The region that is found contains the address. -/
theorem exists_region :
    ∀ (rs : List MemRegion) (k : Nat) {i : Nat} {start : BitVec 32},
      findRegion a rs k = some (i, start) →
        ∃ r, rs[i - k]? = some r ∧ k ≤ i ∧ r.start = start ∧ r.contains a = true := by
  intro rs
  induction rs with
  | nil => intro k i start h; simp [findRegion] at h
  | cons r rs ih =>
      intro k i start h
      unfold findRegion at h
      split at h
      next hcontains =>
        obtain ⟨rfl, rfl⟩ : k = i ∧ r.start = start := by simpa using h
        exact ⟨r, by simp, le_refl k, rfl, hcontains⟩
      next =>
        obtain ⟨r', hget, hk, hstart, hcontains⟩ := ih (k + 1) h
        refine ⟨r', ?_, by omega, hstart, hcontains⟩
        rw [show i - k = (i - (k + 1)) + 1 by omega, List.getElem?_cons_succ]
        exact hget

/-- The start that is found is the one of the region that is found. -/
theorem findRegion_index (rs : List MemRegion) (k : Nat) {i : Nat} {start : BitVec 32}
    (h : findRegion a rs k = some (i, start)) :
    k ≤ i ∧ (rs[i - k]?).map MemRegion.start = some start := by
  obtain ⟨r, hget, hk, hstart, -⟩ := exists_region rs k h
  rw [hget, Option.map_some, hstart]
  exact ⟨hk, rfl⟩

theorem findRegion_start_eq {i : Nat} {s₁ s₂ : BitVec 32}
    (ha : findRegion a regions 0 = some (i, s₁))
    (hb : findRegion b regions 0 = some (i, s₂)) : s₁ = s₂ := by
  have h₁ := (findRegion_index regions 0 ha).2
  have h₂ := (findRegion_index regions 0 hb).2
  rw [h₁] at h₂
  exact Option.some.inj h₂

/-- A write leaves every word alone that shares no byte with it. -/
theorem memRead32_memWrite32_of_disjoint
    (h₁ : 4 ≤ (b - a).toNat) (h₂ : 4 ≤ (a - b).toNat) :
    memRead32 regions (memWrite32 regions mem a v) b = memRead32 regions mem b := by
  cases hb : findRegion b regions 0 with
  | none => simp only [memRead32, hb]
  | some rb =>
      obtain ⟨j, sb⟩ := rb
      cases ha : findRegion a regions 0 with
      | none => simp only [memRead32, memWrite32, ha, hb]
      | some ra =>
          obtain ⟨i, sa⟩ := ra
          have hkeep : ∀ k : BitVec 32, k.toNat < 4 →
              memWrite32 regions mem a v j (b - sb + k) = mem j (b - sb + k) := by
            intro k hk
            refine memWrite32_byte_of_disjoint ha ?_
            intro hij
            subst hij
            have := findRegion_start_eq ha hb
            bv_omega
          simp only [memRead32, hb]
          rw [hkeep 3 (by decide), hkeep 2 (by decide), hkeep 1 (by decide),
            hkeep 0 (by decide)]

/-- Two different aligned words share no byte. -/
theorem aligned_distance (ha : a &&& 3 = 0) (hb : b &&& 3 = 0) (hne : b ≠ a) :
    4 ≤ (b - a).toNat := by
  rw [and_3_eq_zero_iff] at ha hb
  have hne' : b.toNat ≠ a.toNat := fun h => hne (BitVec.eq_of_toNat_eq h)
  rw [BitVec.toNat_sub]
  omega

/-- An aligned word after an aligned write. -/
theorem memRead32_memWrite32_aligned (ha : a &&& 3 = 0) (hb : b &&& 3 = 0)
    {r : Nat × BitVec 32} (h : findRegion a regions 0 = some r) :
    memRead32 regions (memWrite32 regions mem a v) b =
      if b = a then v else memRead32 regions mem b := by
  by_cases hba : b = a
  · rw [if_pos hba, hba, memRead32_memWrite32 h]
  · rw [if_neg hba, memRead32_memWrite32_of_disjoint (aligned_distance ha hb hba)
      (aligned_distance hb ha (Ne.symm hba))]

/-- A write outside every region does nothing. -/
theorem memWrite32_of_outside (h : findRegion a regions 0 = none) :
    memWrite32 regions mem a v = mem := by
  simp only [memWrite32, h]

end Laws

/-! ## Regions -/

section Regions

variable {regions : List MemRegion} {a b : BitVec 32}

/-- The search fails where no region contains the address. -/
theorem findRegion_eq_none_iff (address : BitVec 32) (rs : List MemRegion) (i : Nat) :
    findRegion address rs i = none ↔ ∀ r ∈ rs, r.contains address = false := by
  induction rs generalizing i with
  | nil => simp [findRegion]
  | cons r rs ih =>
      cases h : r.contains address with
      | true => simp [findRegion, h]
      | false =>
          rw [findRegion_of_not_contains (by rw [h]; exact Bool.false_ne_true), ih]
          simp [h]

/-- A region that ends below `2 ^ 32`. -/
def MemRegion.Bounded (r : MemRegion) : Prop := r.start.toNat + r.size.toNat < 2 ^ 32

instance (r : MemRegion) : Decidable r.Bounded := inferInstanceAs (Decidable (_ < _))

/-- The four bytes from `a` on lie inside the region. -/
def MemRegion.HoldsWord (r : MemRegion) (a : BitVec 32) : Prop :=
  r.start.toNat ≤ a.toNat ∧ a.toNat + 4 ≤ r.start.toNat + r.size.toNat

/-- The byte at `a` lies inside the region. -/
def MemRegion.HoldsByte (r : MemRegion) (a : BitVec 32) : Prop :=
  r.start.toNat ≤ a.toNat ∧ a.toNat < r.start.toNat + r.size.toNat

instance (r : MemRegion) (a : BitVec 32) : Decidable (r.HoldsByte a) :=
  inferInstanceAs (Decidable (_ ∧ _))

/-- A word inside a region is found. -/
theorem exists_findRegion (hbound : ∀ r ∈ regions, r.Bounded)
    (h : ∃ r ∈ regions, r.HoldsWord a) : ∃ r, findRegion a regions 0 = some r := by
  obtain ⟨r, hr, hlow, hhigh⟩ := h
  refine Option.ne_none_iff_exists'.mp fun hnone => ?_
  have hcontains : r.contains a = true :=
    (MemRegion.contains_iff (hbound r hr) a).mpr ⟨hlow, by omega⟩
  rw [(findRegion_eq_none_iff a regions 0).mp hnone r hr] at hcontains
  exact absurd hcontains nofun

/-- A byte inside no region is not found. -/
theorem findRegion_eq_none (hbound : ∀ r ∈ regions, r.Bounded)
    (h : ∀ r ∈ regions, ¬ r.HoldsByte a) : findRegion a regions 0 = none := by
  refine (findRegion_eq_none_iff a regions 0).mpr fun r hr => ?_
  rw [← Bool.not_eq_true, MemRegion.contains_iff (hbound r hr)]
  exact h r hr

/-- A word that lies inside a region does not wrap around, so two such words share no
byte when one ends before the other begins. -/
theorem word_distance (ha : ∃ r ∈ regions, r.Bounded ∧ r.HoldsWord a)
    (hb : ∃ r ∈ regions, r.Bounded ∧ r.HoldsWord b)
    (h : a.toNat + 4 ≤ b.toNat ∨ b.toNat + 4 ≤ a.toNat) :
    4 ≤ (b - a).toNat ∧ 4 ≤ (a - b).toNat := by
  obtain ⟨ra, -, hbounda, -, hahigh⟩ := ha
  obtain ⟨rb, -, hboundb, -, hbhigh⟩ := hb
  unfold MemRegion.Bounded at hbounda hboundb
  rw [BitVec.toNat_sub, BitVec.toNat_sub]
  rcases h with h | h <;> omega

end Regions

/-- Reading from one region takes no other. -/
theorem memRead32_region {regions : List MemRegion} {m m' : Memory} {a start : BitVec 32} {i : Nat}
    (hfind : findRegion a regions 0 = some (i, start)) (h : m i = m' i) :
    memRead32 regions m a = memRead32 regions m' a := by
  simp only [memRead32, hfind, h]

/-! ## A loaded memory -/

/-- The byte arrays that hold the words `words i 0`, `words i 1`, … of region `i`. -/
def Memory.ofWords (words : Nat → BitVec 32 → BitVec 32) : Memory := fun i offset =>
  (words i (offset >>> 2)).extractLsb' (8 * (offset &&& 3).toNat) 8

/-- The offsets of the four bytes of an aligned word. -/
theorem aligned_byte {o : BitVec 32} (h : o &&& 3 = 0) {k : BitVec 32} (hk : k < 4) :
    (o + k) >>> 2 = o >>> 2 ∧ (o + k) &&& 3 = k := by
  have ho : o.toNat % 4 = 0 := (and_3_eq_zero_iff o).mp h
  have hk' : k.toNat < 4 := hk
  have hlt := o.isLt
  have hsum : (o + k).toNat = o.toNat + k.toNat := by rw [BitVec.toNat_add]; omega
  constructor
  · apply BitVec.eq_of_toNat_eq
    rw [BitVec.toNat_ushiftRight, BitVec.toNat_ushiftRight, hsum,
      Nat.shiftRight_eq_div_pow, Nat.shiftRight_eq_div_pow]
    omega
  · apply BitVec.eq_of_toNat_eq
    rw [and_3_eq_mod, hsum]
    omega

/-- A word is its four bytes. -/
theorem wordOfBytes_extract (v : BitVec 32) :
    wordOfBytes (v.extractLsb' 24 8) (v.extractLsb' 16 8) (v.extractLsb' 8 8)
      (v.extractLsb' 0 8) = v := by
  apply BitVec.eq_of_getLsbD_eq
  intro i hi
  simp only [wordOfBytes, BitVec.getLsbD_or, BitVec.getLsbD_shiftLeft,
    BitVec.getLsbD_setWidth, BitVec.getLsbD_extractLsb']
  interval_cases i <;> simp

/-- An aligned read of a loaded memory. -/
theorem memRead32_ofWords {regions : List MemRegion} {a start : BitVec 32} {i : Nat}
    (words : Nat → BitVec 32 → BitVec 32)
    (h : findRegion a regions 0 = some (i, start)) (ha : (a - start) &&& 3 = 0) :
    memRead32 regions (Memory.ofWords words) a = words i ((a - start) >>> 2) := by
  have hbyte : ∀ (k : BitVec 32) (n : Nat), k < 4 → 8 * k.toNat = n →
      Memory.ofWords words i (a - start + k) =
        (words i ((a - start) >>> 2)).extractLsb' n 8 := by
    intro k n hk hn
    obtain ⟨hword, hlow⟩ := aligned_byte ha hk
    simp only [Memory.ofWords, hword, hlow, hn]
  simp only [memRead32, h]
  rw [hbyte 3 24 (by decide) rfl, hbyte 2 16 (by decide) rfl, hbyte 1 8 (by decide) rfl,
    hbyte 0 0 (by decide) rfl]
  exact wordOfBytes_extract _

end SimpleCpu.Iss
