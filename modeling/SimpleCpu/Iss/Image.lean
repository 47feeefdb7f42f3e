import SimpleCpu.CoSim.Image
import SimpleCpu.Iss.Outside

/-!
# Programs in the simulators' memory

`init_memory` fills every region with the byte `0xef`, and `load_program` writes the words
of a program over it.
-/

namespace SimpleCpu.Iss

open SimpleCpu.CoSim

section Image

variable {regions : List MemRegion} {words : List (BitVec 32 × BitVec 32)} {a : BitVec 32}

/-- The address of a word in a region. -/
def InRegion (regions : List MemRegion) (a : BitVec 32) : Prop :=
  a &&& 3 = 0 ∧ ∃ r, findRegion a regions 0 = some r

/-- `load_program`, for a memory alone. -/
def loadMem (regions : List MemRegion) (mem : Memory) (words : List (BitVec 32 × BitVec 32)) :
    Memory :=
  words.foldl (fun mem word => memWrite32 regions mem word.1 word.2) mem

theorem stores_mem (regions : List MemRegion) :
    Stores (InRegion regions) (memRead32 regions)
      fun mem word => memWrite32 regions mem word.1 word.2 where
  read_write _ _ _ hp ha := by
    obtain ⟨r, hr⟩ := hp.2
    exact memRead32_memWrite32_aligned hp.1 ha.1 hr

/-- `load_program` keeps what the files do not name. -/
theorem loadMem_other (hwords : ∀ p ∈ words, InRegion regions p.1) (ha : InRegion regions a)
    (hmem : a ∉ words.map Prod.fst) (mem : Memory) :
    memRead32 regions (loadMem regions mem words) a = memRead32 regions mem a :=
  (stores_mem regions).foldl_of_not_mem hwords ha hmem mem

/-- The words of a program that is a part of `f` are read back. -/
theorem loadMem_part {f : BitVec 32 → BitVec 32} (hwords : ∀ p ∈ words, InRegion regions p.1)
    (hf : ∀ p ∈ words, p.2 = f p.1) (ha : InRegion regions a) (hmem : a ∈ words.map Prod.fst)
    (mem : Memory) : memRead32 regions (loadMem regions mem words) a = f a :=
  (stores_mem regions).foldl_part hwords hf ha (Or.inl hmem)

/-- A program in one region leaves the others alone. -/
theorem sameOutside_loadMem {t : Nat}
    (hwords : ∀ p ∈ words, ∃ start, findRegion p.1 regions 0 = some (t, start)) (mem : Memory) :
    SameOutside t mem (loadMem regions mem words) := by
  unfold loadMem
  induction words generalizing mem with
  | nil => exact fun _ _ => rfl
  | cons p words ih =>
      obtain ⟨⟨start, hfind⟩, hwords⟩ := List.forall_mem_cons.mp hwords
      exact fun i hi => (memWrite32_other hfind hi).symm.trans (ih hwords _ i hi)

/-- The words that `init_memory` leaves behind. -/
theorem memRead32_ef (ha : InRegion regions a) :
    memRead32 regions (fun _ _ => 0xef) a = 0xefefefef := by
  obtain ⟨-, r, hr⟩ := ha
  simp only [memRead32, hr]
  show wordOfBytes 0xef 0xef 0xef 0xef = _
  decide

end Image

end SimpleCpu.Iss
