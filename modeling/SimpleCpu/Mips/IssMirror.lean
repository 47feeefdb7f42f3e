import SimpleCpu.Iss.Outside
import SimpleCpu.Mips.IssFrame

/-!
# Simulators that differ in the text

A simulator that holds another program in the text region behaves in the same way as long
as it fetches the same words and uses no data from the text: `Mirrors.cycle`.
-/

namespace SimpleCpu.Mips.Iss

open SimpleCpu.Bits SimpleCpu.Iss SimpleCpu.Mips.Isa

/-! ## Outside the text -/

/-- The two memories differ in the text region at most. -/
def SameData (m m' : Memory) : Prop := ∀ i, i ≠ 0 → m i = m' i

section Data

variable {m m' : Memory} {a v : BitVec 32} {i : Nat} {start : BitVec 32}

/-- An address behind the text. -/
theorem misses_text (h : 0x1FFF ≤ a.toNat) : Misses memRegions 0 a := by
  refine misses_of_not_contains (t := 0) rfl ?_
  rw [MemRegion.contains_iff (by decide)]
  rintro ⟨-, hlt⟩
  exact absurd hlt (Nat.not_lt.mpr h)

theorem SameData.memRead (h : SameData m m') (ha : 0x1FFF ≤ a.toNat) :
    memRead32 memRegions m' a = memRead32 memRegions m a :=
  SameOutside.memRead h (misses_text ha)

theorem SameData.memWrite (h : SameData m m') (ha : 0x1FFF ≤ a.toNat) :
    SameData (memWrite32 memRegions m a v) (memWrite32 memRegions m' a v) ∧
      memWrite32 memRegions m' a v 0 = m' 0 :=
  SameOutside.memWrite h (misses_text ha)

/-- A write to the text leaves the data alone. -/
theorem SameData.load (h : SameData m m') (hfind : findRegion a memRegions 0 = some (0, start)) :
    SameData (memWrite32 memRegions m a v) m' :=
  SameOutside.load h hfind

end Data

/-! ## One cycle -/

/-- The word may use memory as data. -/
def accessesMem (w : BitVec 32) : Bool := readsMem w || changesMem w

/-- `t` is `s` with another text. -/
structure Mirrors (s t : Sim) : Prop where
  sim : t = s.withMem t.mem
  data : SameData s.mem t.mem

section Mirrors

variable {s t : Sim} {w : BitVec 32}

theorem Mirrors.symm (h : Mirrors s t) : Mirrors t s where
  sim := by
    rw [h.sim]
    rfl
  data i hi := (h.data i hi).symm

theorem Mirrors.current_eq (h : Mirrors s t) : t.current = s.current := by
  rw [h.sim]
  rfl

/-- Both simulators execute the same word. -/
theorem Mirrors.cycle (h : Mirrors s t) (hs : s.memRead s.current.pc = w)
    (ht : t.memRead t.current.pc = w)
    (hdata : accessesMem w = true → 0x1FFF ≤ (effectiveAddress s.current.regs w).toNat) :
    Mirrors (cycle s) (cycle t) ∧ (cycle t).mem 0 = t.mem 0 := by
  have hcurrent := h.current_eq
  have hread : memRead32 memRegions t.mem s.current.pc = w := by
    rw [← hcurrent]
    exact ht
  have hcycle := cycle_withMem hs hread fun hreads =>
    h.data.memRead (hdata (by unfold accessesMem; rw [hreads]; rfl))
  rw [← h.sim] at hcycle
  have hmem := cycle_mem hs
  cases hchanges : changesMem w with
  | false =>
      rw [hchanges] at hcycle hmem
      refine ⟨⟨?_, ?_⟩, ?_⟩
      · rw [hcycle]
        rfl
      · rw [hcycle, hmem]
        exact h.data
      · rw [hcycle]
        rfl
  | true =>
      rw [hchanges] at hcycle hmem
      have hwrite := h.data.memWrite (v := storedWord s.next w)
        (hdata (by unfold accessesMem; rw [hchanges, Bool.or_true]))
      refine ⟨⟨?_, ?_⟩, ?_⟩
      · rw [hcycle]
        rfl
      · rw [hcycle, hmem]
        exact hwrite.1
      · rw [hcycle]
        exact hwrite.2

/-- A word that is loaded into the text is not seen from the other one. -/
theorem Mirrors.load (h : Mirrors s t) {a v start : BitVec 32}
    (hfind : findRegion a memRegions 0 = some (0, start)) : Mirrors (s.memWrite a v) t where
  sim := h.sim
  data := h.data.load hfind

end Mirrors

/-- Loading a program changes the memory alone. -/
theorem loadProgram_withMem (s : Sim) (words : List (BitVec 32 × BitVec 32)) :
    loadProgram s words = s.withMem (loadProgram s words).mem := by
  induction words generalizing s with
  | nil => rfl
  | cons p ps ih => exact ih (s.memWrite p.1 p.2)

end SimpleCpu.Mips.Iss
