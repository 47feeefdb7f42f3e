import SimpleCpu.Mips.Iss
import SimpleCpu.RiscV.Iss

/-!
# The bytes behind an address

`mem_read_32` and `mem_write_32` test the first byte of a word against the regions and
then use four bytes of the region's buffer, which `init_memory` allocates with the size
that the table gives.

* `memRead32_congr`, `memWrite32_frame`: the bytes in `byteIndices` are the ones used.
* `in_bounds_iff`: all four lie inside the buffer unless the address is one of the last
  three of its region.
-/

namespace SimpleCpu.Iss

/-! ## Bytes -/

/-- The number of bytes that `init_memory` allocates: `malloc(MEM_REGIONS[i].size)`. -/
def MemRegion.allocated (r : MemRegion) : Nat := r.size.toNat

/-- The buffer and the index of each byte that an access to `address` uses. -/
def byteIndices (regions : List MemRegion) (address : BitVec 32) : List (Nat × BitVec 32) :=
  match findRegion address regions 0 with
  | some (i, start) =>
      let offset := address - start
      [(i, offset + 3), (i, offset + 2), (i, offset + 1), (i, offset + 0)]
  | none => []

/-- The index lies inside the buffer. -/
def InBounds (regions : List MemRegion) (byte : Nat × BitVec 32) : Prop :=
  ∃ r, regions[byte.1]? = some r ∧ byte.2.toNat < r.allocated

section Bytes

variable {regions : List MemRegion} {mem mem' : Memory} {a v : BitVec 32}

/-- A read looks at no other bytes. -/
theorem memRead32_congr (h : ∀ p ∈ byteIndices regions a, mem p.1 p.2 = mem' p.1 p.2) :
    memRead32 regions mem a = memRead32 regions mem' a := by
  unfold byteIndices at h
  unfold memRead32
  cases hfind : findRegion a regions 0 with
  | none => rfl
  | some r =>
      obtain ⟨i, start⟩ := r
      rw [hfind] at h
      simp only [List.forall_mem_cons] at h
      obtain ⟨h3, h2, h1, h0, -⟩ := h
      dsimp only
      rw [h3, h2, h1, h0]

/-- A write changes no other bytes. -/
theorem memWrite32_frame {i : Nat} {o : BitVec 32} (h : (i, o) ∉ byteIndices regions a) :
    memWrite32 regions mem a v i o = mem i o := by
  unfold byteIndices at h
  unfold memWrite32
  cases hfind : findRegion a regions 0 with
  | none => rfl
  | some r =>
      obtain ⟨j, start⟩ := r
      rw [hfind] at h
      simp only [List.mem_cons, List.not_mem_nil, or_false, not_or, Prod.mk.injEq,
        not_and] at h
      obtain ⟨h3, h2, h1, h0⟩ := h
      by_cases hij : i = j
      · subst hij
        dsimp only
        rw [setByte_ne_offset (h0 rfl), setByte_ne_offset (h1 rfl), setByte_ne_offset (h2 rfl),
          setByte_ne_offset (h3 rfl)]
      · simp only [setByte_ne_region hij]

end Bytes

/-! ## The end of a region -/

/-- One of the last three addresses of the region. -/
def MemRegion.InTail (r : MemRegion) (a : BitVec 32) : Prop :=
  r.start.toNat + r.size.toNat ≤ a.toNat + 3 ∧ a.toNat < r.start.toNat + r.size.toNat

instance (r : MemRegion) (a : BitVec 32) : Decidable (r.InTail a) :=
  inferInstanceAs (Decidable (_ ∧ _))

/-- A table of regions that end below `2 ^ 32`, hold a word and do not overlap. -/
structure WellFormed (regions : List MemRegion) : Prop where
  bounded : ∀ r ∈ regions, r.Bounded
  size : ∀ r ∈ regions, 3 ≤ r.size.toNat ∧ r.size.toNat ≤ 2 ^ 31
  disjoint : ∀ r ∈ regions, ∀ r' ∈ regions, r = r' ∨
    r.start.toNat + r.size.toNat ≤ r'.start.toNat ∨
    r'.start.toNat + r'.size.toNat ≤ r.start.toNat

section Tail

variable {regions : List MemRegion} {a : BitVec 32}

/-- The last index is the one that can leave the buffer. -/
theorem byteIndices_in_bounds {i : Nat} {start : BitVec 32} {r : MemRegion}
    (hfind : findRegion a regions 0 = some (i, start)) (hget : regions[i]? = some r)
    (hoffset : (a - start).toNat + 3 < 2 ^ 32) :
    (∀ p ∈ byteIndices regions a, InBounds regions p) ↔
      (a - start).toNat + 3 < r.allocated := by
  have hindex : ∀ k : BitVec 32, k.toNat ≤ 3 →
      (a - start + k).toNat = (a - start).toNat + k.toNat := by
    intro k hk
    rw [BitVec.toNat_add, Nat.mod_eq_of_lt (by omega)]
  have hbyte : ∀ k : BitVec 32, k.toNat ≤ 3 → (InBounds regions (i, a - start + k) ↔
      (a - start).toNat + k.toNat < r.allocated) := by
    intro k hk
    unfold InBounds
    rw [hget, hindex k hk]
    constructor
    · rintro ⟨r', hr', hlt⟩
      obtain rfl := Option.some.inj hr'
      exact hlt
    · intro hlt
      exact ⟨r, rfl, hlt⟩
  unfold byteIndices
  rw [hfind]
  simp only [List.forall_mem_cons, hbyte 3 (by decide), hbyte 2 (by decide),
    hbyte 1 (by decide), hbyte 0 (by decide)]
  have h3 : (3 : BitVec 32).toNat = 3 := rfl
  have h2 : (2 : BitVec 32).toNat = 2 := rfl
  have h1 : (1 : BitVec 32).toNat = 1 := rfl
  have h0 : (0 : BitVec 32).toNat = 0 := rfl
  constructor
  · intro h
    omega
  · intro h
    refine ⟨by omega, by omega, by omega, by omega, ?_⟩
    intro p hp
    exact absurd hp List.not_mem_nil

/-- The bytes of an address lie inside their buffer unless it is one of the last three
addresses of a region. -/
theorem WellFormed.in_bounds_iff (h : WellFormed regions) (a : BitVec 32) :
    (∀ p ∈ byteIndices regions a, InBounds regions p) ↔ ∀ r ∈ regions, ¬ r.InTail a := by
  cases hfind : findRegion a regions 0 with
  | none =>
      have hbytes : byteIndices regions a = [] := by
        unfold byteIndices
        rw [hfind]
      rw [hbytes]
      refine ⟨fun _ r hr htail => ?_, fun _ p hp => absurd hp List.not_mem_nil⟩
      have houtside := (findRegion_eq_none_iff a regions 0).mp hfind r hr
      have hsize := h.size r hr
      have hinside := (MemRegion.contains_iff (h.bounded r hr) a).mpr
        ⟨by have := htail.1; omega, htail.2⟩
      exact Bool.false_ne_true (houtside.symm.trans hinside)
  | some found =>
      obtain ⟨i, start⟩ := found
      obtain ⟨r, hget, -, rfl, hcontains⟩ := exists_region regions 0 hfind
      rw [Nat.sub_zero] at hget
      have hr : r ∈ regions := List.mem_of_getElem? hget
      have hbounded := h.bounded r hr
      obtain ⟨hlow, hhigh⟩ := (MemRegion.contains_iff hbounded a).mp hcontains
      have hoffset : (a - r.start).toNat = a.toNat - r.start.toNat := by
        rw [BitVec.toNat_sub]
        omega
      unfold MemRegion.Bounded at hbounded
      have hsize := h.size r hr
      rw [byteIndices_in_bounds hfind hget (by omega), hoffset]
      unfold MemRegion.allocated
      constructor
      · intro hlt r' hr' htail
        obtain ⟨htail₁, htail₂⟩ := htail
        have hsize' := h.size r' hr'
        rcases h.disjoint r hr r' hr' with rfl | hsep | hsep <;> omega
      · intro hno
        have := hno r hr
        unfold MemRegion.InTail at this
        omega

end Tail

/-! ## The two simulators -/

inductive Simulator where
  | riscV
  | mips
  deriving DecidableEq, Repr

/-- `MEM_REGIONS` -/
def Simulator.memRegions : Simulator → List MemRegion
  | .riscV => RiscV.Iss.memRegions
  | .mips => Mips.Iss.memRegions

theorem Simulator.memRegions_wellFormed (sim : Simulator) : WellFormed sim.memRegions := by
  cases sim with
  | riscV | mips => exact ⟨by decide, by decide, by decide⟩

/-- An access stays inside the buffer of its region exactly where the address is not one
of the last three of a region. -/
theorem access_in_bounds_iff (sim : Simulator) (address : BitVec 32) :
    (∀ p ∈ byteIndices sim.memRegions address, InBounds sim.memRegions p) ↔
      ∀ r ∈ sim.memRegions, ¬ r.InTail address :=
  sim.memRegions_wellFormed.in_bounds_iff address

/-- The last word of the data region: the test accepts its address, and its last byte is
the first one behind the buffer. -/
theorem last_data_word_out_of_bounds :
    ¬ ∀ (sim : Simulator) (address : BitVec 32),
      findRegion address sim.memRegions 0 ≠ none →
        ∀ p ∈ byteIndices sim.memRegions address, InBounds sim.memRegions p := by
  intro h
  have htail := (Simulator.memRegions_wellFormed .riscV).in_bounds_iff 0x1FFC
  exact htail.mp (h .riscV 0x1FFC (by decide)) { start := 0x00000000, size := 0x00001FFF }
    (by decide) (by decide)

end SimpleCpu.Iss
