import SimpleCpu.Iss.Memory

/-!
# Memories that differ in one region

`SameOutside t` relates two memories that may differ in region `t`, such as two simulators
with different programs.  An address that misses the region reads and writes both alike.
-/

namespace SimpleCpu.Iss

/-- The memories differ in region `t` at most. -/
def SameOutside (t : Nat) (m m' : Memory) : Prop := ∀ i, i ≠ t → m i = m' i

/-- The search does not end in region `t`. -/
def Misses (regions : List MemRegion) (t : Nat) (a : BitVec 32) : Prop :=
  ∀ start, findRegion a regions 0 ≠ some (t, start)

section Outside

variable {regions : List MemRegion} {t i j : Nat} {m m' : Memory} {a v start : BitVec 32}

theorem SameOutside.symm (h : SameOutside t m m') : SameOutside t m' m :=
  fun i hi => (h i hi).symm

theorem SameOutside.memRead (h : SameOutside t m m') (ha : Misses regions t a) :
    memRead32 regions m' a = memRead32 regions m a := by
  cases hfind : findRegion a regions 0 with
  | none => simp only [memRead32, hfind]
  | some r =>
      obtain ⟨i, start⟩ := r
      have hi : i ≠ t := by
        rintro rfl
        exact ha start hfind
      simp only [memRead32, hfind]
      rw [h i hi]

theorem misses_of_not_contains {r : MemRegion} (hr : regions[t]? = some r)
    (h : ¬ r.contains a = true) : Misses regions t a := by
  intro start hfind
  obtain ⟨r', hget, -, -, hcontains⟩ := exists_region regions 0 hfind
  rw [Nat.sub_zero, hr] at hget
  obtain rfl := Option.some.inj hget
  exact h hcontains

/-- A write changes one region. -/
theorem memWrite32_other (hfind : findRegion a regions 0 = some (i, start)) (hj : j ≠ i) :
    memWrite32 regions m a v j = m j :=
  funext fun _ => memWrite32_byte_of_disjoint hfind fun h => absurd h hj

/-- What it makes of the region does not depend on the others. -/
theorem memWrite32_same (hfind : findRegion a regions 0 = some (i, start))
    (hm : m i = m' i) : memWrite32 regions m a v i = memWrite32 regions m' a v i := by
  simp only [memWrite32, hfind, Memory.setByte, Function.update_self, hm]

theorem SameOutside.memWrite (h : SameOutside t m m') (ha : Misses regions t a) :
    SameOutside t (memWrite32 regions m a v) (memWrite32 regions m' a v) ∧
      memWrite32 regions m' a v t = m' t := by
  cases hfind : findRegion a regions 0 with
  | none =>
      rw [memWrite32_of_outside hfind, memWrite32_of_outside hfind]
      exact ⟨h, rfl⟩
  | some r =>
      obtain ⟨i, start⟩ := r
      have hi : t ≠ i := by
        rintro rfl
        exact ha start hfind
      refine ⟨fun j hj => ?_, memWrite32_other hfind hi⟩
      by_cases hji : j = i
      · rw [hji]
        exact memWrite32_same hfind (h i hi.symm)
      · rw [memWrite32_other hfind hji, memWrite32_other hfind hji]
        exact h j hj

/-- A write to the region leaves the others alone. -/
theorem SameOutside.load (h : SameOutside t m m')
    (hfind : findRegion a regions 0 = some (t, start)) :
    SameOutside t (memWrite32 regions m a v) m' := by
  intro j hj
  rw [memWrite32_other hfind hj]
  exact h j hj

end Outside

end SimpleCpu.Iss
