import Mathlib.Data.Nat.Count
import Mathlib.Tactic.Common

/-!
# A design beside its reference

A testbench watches a design clock by clock.  At the clocks it samples, the reference
advances by one step and a chain of comparisons decides whether the two still agree; the
first comparison that fails ends the test, and so does a condition of its own.

The lemmas do two things:

* `Bench.after_running` keeps a relation between design and reference through every clock
  of a test that cannot fail;
* `Bench.of_running` and `Bench.of_passed` read a relation off a test that has not failed.

`Decided.running_iff` and `Decided.passed_iff` put them together for a test whose result
can be read off the design and the reference clock by clock, and `Decided.quota_running_iff`
and `Decided.quota_passed_iff` for one that ends with a fixed number of samples.
-/

namespace SimpleCpu.CoSim

/-! ## Chains of comparisons -/

section Chain

variable {ν α : Type} [DecidableEq α]

/-- The name of the first comparison whose values differ. -/
def firstMismatch : List (ν × α × α) → Option ν
  | [] => none
  | (name, x, y) :: tests => if x ≠ y then some name else firstMismatch tests

theorem firstMismatch_cons (name : ν) (x y : α) (tests : List (ν × α × α)) :
    firstMismatch ((name, x, y) :: tests) = none ↔ x = y ∧ firstMismatch tests = none := by
  rw [firstMismatch]
  by_cases h : x = y
  · rw [if_neg (not_not.mpr h)]
    exact (and_iff_right h).symm
  · rw [if_pos h]
    exact iff_of_false (Option.some_ne_none name) fun hxy => h hxy.1

theorem firstMismatch_eq_none_iff {tests : List (ν × α × α)} :
    firstMismatch tests = none ↔ ∀ t ∈ tests, t.2.1 = t.2.2 := by
  induction tests with
  | nil => exact iff_of_true rfl nofun
  | cons t tests ih =>
      obtain ⟨name, x, y⟩ := t
      rw [firstMismatch_cons, ih, List.forall_mem_cons]

/-- How a comparison ends: in `agreed` if no test fails, else in `failed`, with the name of
the first that does. -/
def verdict {σ : Type} (tests : List (ν × α × α)) (agreed failed : σ) : Option ν × σ :=
  match firstMismatch tests with
  | none => (none, agreed)
  | some m => (some m, failed)

theorem verdict_eq_none_iff {σ : Type} {tests : List (ν × α × α)} {agreed failed c : σ} :
    verdict tests agreed failed = (none, c) ↔ (∀ t ∈ tests, t.2.1 = t.2.2) ∧ c = agreed := by
  rw [← firstMismatch_eq_none_iff]
  unfold verdict
  cases firstMismatch tests with
  | none => exact ⟨fun h => ⟨rfl, (Prod.mk.inj h).2.symm⟩, fun h => by rw [h.2]⟩
  | some m => exact iff_of_false (fun h => nomatch (Prod.mk.inj h).1) fun h => nomatch h.1

end Chain

/-! ## Testbenches -/

/-- What a testbench makes of one clock.  `D` is what it sees of the design, `R` the state
of the reference and `V` the kind of a mismatch.  `advance` fails when the reference has
stopped for good. -/
structure Bench (D R V : Type) where
  sample : D → Bool
  advance : R → Option R
  compare : D → R → Option V × R
  finish : D → R → Bool

/-- Where a test stands. -/
inductive Outcome (R V : Type) where
  | running (r : R)
  | failed (v : V)
  | halted
  | passed
  deriving DecidableEq

namespace Bench

variable {D R V : Type} (B : Bench D R V)

/-- A clock that is sampled. -/
def sampled (d : D) (r : R) : Outcome R V :=
  match B.advance r with
  | none => .halted
  | some r =>
      match B.compare d r with
      | (some v, _) => .failed v
      | (none, r) => if B.finish d r then .passed else .running r

def step (d : D) (r : R) : Outcome R V :=
  if B.sample d then B.sampled d r else .running r

/-- The test after `n` clocks of a design that goes through the states `d`. -/
def after (d : Nat → D) (r : R) : Nat → Outcome R V
  | 0 => .running r
  | n + 1 =>
      match after d r n with
      | .running r => B.step (d n) r
      | o => o

variable {B} {d : Nat → D} {r r' : R} {n : Nat}

/-! ## One clock -/

/-- The comparison of a sampled clock succeeds. -/
def Agrees (B : Bench D R V) (d : D) (r r' : R) : Prop :=
  ∃ r₁, B.advance r = some r₁ ∧ B.compare d r₁ = (none, r')

theorem sampled_of_agrees {d : D} (h : B.Agrees d r r') :
    B.sampled d r = if B.finish d r' then .passed else .running r' := by
  obtain ⟨r₁, hadv, hcmp⟩ := h
  unfold sampled
  rw [hadv]
  dsimp only
  rw [hcmp]

theorem agrees_of_sampled {d : D} (h : B.sampled d r = .running r' ∨ B.sampled d r = .passed) :
    ∃ r₁, B.Agrees d r r₁ ∧
      B.sampled d r = if B.finish d r₁ then .passed else .running r₁ := by
  have hno : ∀ o : Outcome R V, o = .halted ∨ (∃ v, o = .failed v) →
      ¬ (o = .running r' ∨ o = .passed) := by
    rintro o (rfl | ⟨v, rfl⟩) (h | h) <;> exact absurd h nofun
  cases hadv : B.advance r with
  | none => exact absurd h (hno _ (Or.inl (by unfold sampled; rw [hadv])))
  | some r₁ =>
      cases hcmp : B.compare d r₁ with
      | mk v r₂ =>
          cases v with
          | some v =>
              refine absurd h (hno _ (Or.inr ⟨v, ?_⟩))
              unfold sampled
              rw [hadv]
              dsimp only
              rw [hcmp]
          | none =>
              have hagrees : B.Agrees d r r₂ := ⟨r₁, hadv, hcmp⟩
              exact ⟨r₂, hagrees, sampled_of_agrees hagrees⟩

/-- A clock after which the test goes on. -/
theorem step_running_cases {d : D} (h : B.step d r = .running r') :
    B.sample d = true ∧ B.Agrees d r r' ∧ B.finish d r' = false ∨
      B.sample d = false ∧ r' = r := by
  unfold step at h
  split at h
  next hs =>
    obtain ⟨r₁, hagrees, heq⟩ := agrees_of_sampled (Or.inl h)
    rw [h] at heq
    split at heq
    next => exact absurd heq nofun
    next hfin =>
      obtain rfl := Outcome.running.inj heq
      exact Or.inl ⟨hs, hagrees, by simpa using hfin⟩
  next hs => exact Or.inr ⟨by simpa using hs, (Outcome.running.inj h).symm⟩

/-- A clock with which the test ends well. -/
theorem step_passed {d : D} (h : B.step d r = .passed) :
    B.sample d = true ∧ ∃ r₁, B.Agrees d r r₁ ∧ B.finish d r₁ = true := by
  unfold step at h
  split at h
  next hs =>
    have hgood : B.sampled d r = .running r ∨ B.sampled d r = .passed := Or.inr h
    obtain ⟨r₁, hagrees, heq⟩ := agrees_of_sampled hgood
    rw [h] at heq
    split at heq
    next hfin => exact ⟨hs, r₁, hagrees, hfin⟩
    next => exact absurd heq nofun
  next => exact absurd h nofun

theorem step_of_agrees {d : D} (hs : B.sample d = true) (h : B.Agrees d r r') :
    B.step d r = if B.finish d r' then .passed else .running r' := by
  unfold step
  rw [if_pos hs, sampled_of_agrees h]

theorem step_of_not_sampled {d : D} (hs : B.sample d = false) :
    B.step d r = .running r := by
  unfold step
  rw [hs]
  rfl

/-! ## Whole tests -/

theorem after_succ_of_running (h : B.after d r n = .running r') :
    B.after d r (n + 1) = B.step (d n) r' := by
  unfold after
  rw [h]

/-- A test that has ended stays as it is. -/
theorem after_of_ended {o : Outcome R V} (h : B.after d r n = o) (ho : ∀ r', o ≠ .running r')
    {m : Nat} (hm : n ≤ m) : B.after d r m = o := by
  obtain ⟨k, rfl⟩ := Nat.exists_eq_add_of_le hm
  induction k with
  | zero => exact h
  | succ k ih =>
      rw [← Nat.add_assoc, after, ih (Nat.le_add_right n k)]
      cases o with
      | running r' => exact absurd rfl (ho r')
      | failed v => rfl
      | halted => rfl
      | passed => rfl

/-- A test that goes on has gone on before. -/
theorem running_of_le (h : B.after d r n = .running r') {m : Nat} (hm : m ≤ n) :
    ∃ r₁, B.after d r m = .running r₁ := by
  cases ho : B.after d r m with
  | running r₁ => exact ⟨r₁, rfl⟩
  | failed v => exact absurd (h.symm.trans (after_of_ended ho nofun hm)) nofun
  | halted => exact absurd (h.symm.trans (after_of_ended ho nofun hm)) nofun
  | passed => exact absurd (h.symm.trans (after_of_ended ho nofun hm)) nofun

/-- A relation that every clock keeps, and under which no clock ends the test, holds for
as long as it is kept. -/
theorem after_running {I : Nat → R → Prop} (hstart : I 0 r)
    (hstep : ∀ t < n, ∀ r, I t r → ∃ r', B.step (d t) r = .running r' ∧ I (t + 1) r') :
    ∃ r', B.after d r n = .running r' ∧ I n r' := by
  induction n with
  | zero => exact ⟨r, rfl, hstart⟩
  | succ n ih =>
      obtain ⟨r₁, hafter, hI⟩ := ih fun t ht => hstep t (by omega)
      obtain ⟨r₂, hlast, hI'⟩ := hstep n (Nat.lt_succ_self n) r₁ hI
      exact ⟨r₂, (after_succ_of_running hafter).trans hlast, hI'⟩

/-- What every clock keeps after which the test goes on holds of a test that goes on. -/
theorem of_running {I : Nat → R → Prop} (hstart : I 0 r)
    (hstep : ∀ t < n, ∀ r r', I t r → B.step (d t) r = .running r' → I (t + 1) r')
    (h : B.after d r n = .running r') : I n r' := by
  induction n generalizing r' with
  | zero =>
      obtain rfl := Outcome.running.inj h
      exact hstart
  | succ n ih =>
      obtain ⟨r₁, hr₁⟩ := running_of_le h (Nat.le_succ n)
      have hI := ih (fun t ht => hstep t (by omega)) hr₁
      exact hstep n (Nat.lt_succ_self n) r₁ r' hI ((after_succ_of_running hr₁).symm.trans h)

/-- A test that has passed has gone on up to a clock, and has passed with it. -/
theorem of_passed (h : B.after d r n = .passed) :
    ∃ m < n, ∃ r₁, B.after d r m = .running r₁ ∧ B.step (d m) r₁ = .passed := by
  induction n with
  | zero => exact absurd h nofun
  | succ n ih =>
      cases ho : B.after d r n with
      | running r₁ =>
          exact ⟨n, Nat.lt_succ_self n, r₁, ho, (after_succ_of_running ho).symm.trans h⟩
      | failed v => exact absurd (h.symm.trans (after_of_ended ho nofun (Nat.le_succ n))) nofun
      | halted => exact absurd (h.symm.trans (after_of_ended ho nofun (Nat.le_succ n))) nofun
      | passed =>
          obtain ⟨m, hm, r₁, hr₁⟩ := ih ho
          exact ⟨m, by omega, r₁, hr₁⟩

/-! ## Decided tests -/

section Decided

variable (B) (d) (I : Nat → R → Prop) (Good : Nat → Prop) (ended : D → Bool)

/-- As long as the relation `I` holds, the comparison of a clock decides whether the clock is
good, and a good clock keeps `I`.  The test looks for its end in the design alone. -/
structure Decided : Prop where
  other : ∀ t r, B.sample (d t) = false → I t r → I (t + 1) r
  agrees : ∀ t r, B.sample (d t) = true → I t r → Good t → ∃ r', B.Agrees (d t) r r'
  good : ∀ t r r', B.sample (d t) = true → I t r → B.Agrees (d t) r r' → Good t ∧ I (t + 1) r'
  finish : ∀ t r, B.finish (d t) r = ended (d t)

/-- Clock `t` does not end the test. -/
def GoesOn (t : Nat) : Prop := B.sample (d t) = true → Good t ∧ ended (d t) = false

variable {B d I Good ended} (h : B.Decided d I Good ended)

include h

namespace Decided

/-- What a test that goes on has seen. -/
theorem running (hstart : I 0 r) (hrun : B.after d r n = .running r') :
    I n r' ∧ ∀ t < n, B.GoesOn d Good ended t := by
  refine Bench.of_running (I := fun t r => I t r ∧ ∀ u < t, B.GoesOn d Good ended u) ?_ ?_ hrun
  · exact ⟨hstart, fun t ht => absurd ht (Nat.not_lt_zero t)⟩
  · intro t _ r₁ r₂ hI hstep
    have hlast : I (t + 1) r₂ ∧ B.GoesOn d Good ended t := by
      rcases step_running_cases hstep with ⟨hs, hagrees, hfin⟩ | ⟨hs, rfl⟩
      · obtain ⟨hgood, hI'⟩ := h.good t r₁ r₂ hs hI.1 hagrees
        exact ⟨hI', fun _ => ⟨hgood, (h.finish t r₂).symm.trans hfin⟩⟩
      · exact ⟨h.other t _ hs hI.1, fun hs' => absurd (hs.symm.trans hs') Bool.false_ne_true⟩
    refine ⟨hlast.1, fun u hu => ?_⟩
    rcases Nat.lt_succ_iff_lt_or_eq.mp hu with hu | rfl
    · exact hI.2 u hu
    · exact hlast.2

/-- A test goes on exactly as long as all sampled clocks are good and none is the last. -/
theorem running_iff (hstart : I 0 r) :
    (∃ r', B.after d r n = .running r') ↔ ∀ t < n, B.GoesOn d Good ended t := by
  constructor
  · rintro ⟨r', hrun⟩
    exact (h.running hstart hrun).2
  · intro hall
    obtain ⟨r', hrun, -⟩ := after_running (B := B) (d := d) hstart fun t ht r₁ hI => by
      cases hs : B.sample (d t) with
      | false => exact ⟨r₁, step_of_not_sampled hs, h.other t r₁ hs hI⟩
      | true =>
          obtain ⟨hgood, hend⟩ := hall t ht hs
          obtain ⟨r₂, hagrees⟩ := h.agrees t r₁ hs hI hgood
          refine ⟨r₂, ?_, (h.good t r₁ r₂ hs hI hagrees).2⟩
          rw [step_of_agrees hs hagrees, h.finish, hend]
          exact if_neg Bool.false_ne_true
    exact ⟨r', hrun⟩

/-- A test passes with a good clock that is the last, if it has gone on up to there. -/
theorem passed_succ (hstart : I 0 r) (hall : ∀ t < n, B.GoesOn d Good ended t)
    (hs : B.sample (d n) = true) (hgood : Good n) (hend : ended (d n) = true) :
    B.after d r (n + 1) = .passed := by
  obtain ⟨r₁, hrun⟩ := (h.running_iff hstart).mpr hall
  obtain ⟨r₂, hagrees⟩ := h.agrees n r₁ hs (h.running hstart hrun).1 hgood
  rw [after_succ_of_running hrun, step_of_agrees hs hagrees, h.finish, hend]
  exact if_pos rfl

/-- And only so. -/
theorem passed_iff (hstart : I 0 r) : B.after d r n = .passed ↔
    ∃ m < n, (∀ t < m, B.GoesOn d Good ended t) ∧
      B.sample (d m) = true ∧ Good m ∧ ended (d m) = true := by
  constructor
  · intro hpass
    obtain ⟨m, hm, r₁, hrun, hstep⟩ := of_passed hpass
    obtain ⟨hI, hall⟩ := h.running hstart hrun
    obtain ⟨hs, r₂, hagrees, hfin⟩ := step_passed hstep
    exact ⟨m, hm, hall, hs, (h.good m r₁ r₂ hs hI hagrees).1, (h.finish m r₂).symm.trans hfin⟩
  · rintro ⟨m, hm, hall, hs, hgood, hend⟩
    exact after_of_ended (h.passed_succ hstart hall hs hgood hend) nofun hm

/-- A test whose sampled clocks are good as long as it goes on does not fail. -/
theorem running_or_passed (hstart : I 0 r)
    (hgood : ∀ t < n, (∀ u < t, B.GoesOn d Good ended u) → B.sample (d t) = true → Good t) :
    (∃ r', B.after d r n = .running r') ∧ (∀ t < n, B.GoesOn d Good ended t) ∨
      B.after d r n = .passed := by
  induction n with
  | zero => exact Or.inl ⟨⟨r, rfl⟩, fun t ht => absurd ht (Nat.not_lt_zero t)⟩
  | succ n ih =>
      rcases ih fun t ht => hgood t (by omega) with ⟨-, hall⟩ | hpass
      · by_cases hlast : B.GoesOn d Good ended n
        · have hall' : ∀ t < n + 1, B.GoesOn d Good ended t := fun t ht => by
            rcases Nat.lt_succ_iff_lt_or_eq.mp ht with ht | rfl
            · exact hall t ht
            · exact hlast
          exact Or.inl ⟨(h.running_iff hstart).mpr hall', hall'⟩
        · rw [GoesOn, Classical.not_imp] at hlast
          obtain ⟨hs, hno⟩ := hlast
          have hg := hgood n (Nat.lt_succ_self n) hall hs
          have hend : ended (d n) = true := by
            by_contra hne
            exact hno ⟨hg, by simpa using hne⟩
          exact Or.inr (h.passed_succ hstart hall hs hg hend)
      · exact Or.inr (after_of_ended hpass nofun (Nat.le_succ n))

end Decided

end Decided

/-! ## Tests that end with a fixed number of samples -/

section Quota

/-- How many clocks are sampled before clock `t`. -/
def sampledBefore (B : Bench D R V) (d : Nat → D) (t : Nat) : Nat :=
  Nat.count (fun u => B.sample (d u) = true) t

theorem sampledBefore_succ (B : Bench D R V) (d : Nat → D) (t : Nat) :
    B.sampledBefore d (t + 1) = B.sampledBefore d t + if B.sample (d t) then 1 else 0 := by
  unfold sampledBefore
  exact Nat.count_succ _ _

theorem sampledBefore_mono {m n : Nat} (h : m ≤ n) :
    B.sampledBefore d m ≤ B.sampledBefore d n :=
  Nat.count_monotone _ h

/-- The clock of a sample. -/
theorem exists_sample {k : Nat} (h : k < B.sampledBefore d n) :
    ∃ m < n, B.sample (d m) = true ∧ B.sampledBefore d m = k := by
  induction n with
  | zero => exact absurd h (Nat.not_lt_zero k)
  | succ n ih =>
      by_cases hk : k < B.sampledBefore d n
      · obtain ⟨m, hm, hs⟩ := ih hk
        exact ⟨m, by omega, hs⟩
      · rw [sampledBefore_succ] at h
        cases hs : B.sample (d n) with
        | true =>
            rw [hs, if_pos rfl] at h
            exact ⟨n, by omega, hs, by omega⟩
        | false =>
            rw [hs, if_neg Bool.false_ne_true] at h
            exact absurd h hk

variable {I : Nat → R → Prop} {Good : Nat → Prop} {ended : D → Bool} {N : Nat}
  (h : B.Decided d I Good ended) (hN : 0 < N)
  (hended : ∀ t, ended (d t) = true ↔ B.sampledBefore d t + 1 = N)

include hended

/-- Going on means to be good and below the quota. -/
theorem goesOn_quota_iff (hN : 0 < N) : (∀ t < n, B.GoesOn d Good ended t) ↔
    B.sampledBefore d n < N ∧ ∀ t < n, B.sample (d t) = true → Good t := by
  have hlast : ∀ t, ended (d t) = false ↔ B.sampledBefore d t + 1 ≠ N := fun t => by
    rw [Ne, ← hended t, Bool.not_eq_true]
  constructor
  · intro hall
    refine ⟨?_, fun t ht hs => (hall t ht hs).1⟩
    induction n with
    | zero => exact hN
    | succ n ih =>
        have hn := ih fun t ht => hall t (by omega)
        rw [sampledBefore_succ]
        cases hs : B.sample (d n) with
        | true =>
            have hne := (hlast n).mp (hall n (Nat.lt_succ_self n) hs).2
            rw [if_pos rfl]
            omega
        | false => exact hn
  · rintro ⟨hlt, hgood⟩ t ht hs
    refine ⟨hgood t ht hs, (hlast t).mpr ?_⟩
    have hle := sampledBefore_mono (B := B) (d := d) (show t + 1 ≤ n from ht)
    rw [sampledBefore_succ, hs, if_pos rfl] at hle
    omega

include h hN

theorem Decided.quota_running_iff (hstart : I 0 r) :
    (∃ r', B.after d r n = .running r') ↔
      B.sampledBefore d n < N ∧ ∀ t < n, B.sample (d t) = true → Good t :=
  (h.running_iff hstart).trans (goesOn_quota_iff hended hN)

/-- The test passes with the sample that fills the quota. -/
theorem Decided.quota_passed_iff (hstart : I 0 r) : B.after d r n = .passed ↔
    N ≤ B.sampledBefore d n ∧
      ∀ t < n, B.sample (d t) = true → B.sampledBefore d t < N → Good t := by
  rw [h.passed_iff hstart]
  constructor
  · rintro ⟨m, hm, hall, hs, hgood, hend⟩
    have hcount := (hended m).mp hend
    have hfull : B.sampledBefore d (m + 1) = N := by
      rw [sampledBefore_succ, hs, if_pos rfl, hcount]
    refine ⟨hfull ▸ sampledBefore_mono hm, fun t _ hst hlt => ?_⟩
    rcases Nat.lt_trichotomy t m with htm | rfl | hmt
    · exact (hall t htm hst).1
    · exact hgood
    · have hle := sampledBefore_mono (B := B) (d := d) (show m + 1 ≤ t from hmt)
      omega
  · rintro ⟨hfull, hgood⟩
    obtain ⟨m, hm, hs, hcount⟩ := exists_sample (B := B) (d := d) (k := N - 1)
      (show N - 1 < B.sampledBefore d n by omega)
    refine ⟨m, hm, ?_, hs, hgood m hm hs (by omega), (hended m).mpr (by omega)⟩
    refine (goesOn_quota_iff hended hN).mpr ⟨by omega, fun t ht hst => ?_⟩
    have hle := sampledBefore_mono (B := B) (d := d) (Nat.le_of_lt ht)
    exact hgood t (by omega) hst (by omega)

end Quota

end Bench

/-! ## Two counters of one run

`Nat.count p n` is what a counter holds after `n` clocks that counts the clocks `p`.
A counter of some of these clocks agrees with it exactly when no clock has been missed. -/

section Counts

variable {p q : Nat → Prop} [DecidablePred p] [DecidablePred q]

/-- What counts fewer steps is never ahead. -/
theorem count_le_count (hqp : ∀ t, q t → p t) (n : Nat) : Nat.count q n ≤ Nat.count p n :=
  Nat.count_mono_left fun t _ => hqp t

theorem count_eq_iff (hqp : ∀ t, q t → p t) (n : Nat) :
    Nat.count q n = Nat.count p n ↔ ∀ t < n, p t → q t := by
  induction n with
  | zero => exact ⟨fun _ t ht => absurd ht (Nat.not_lt_zero t), fun _ => rfl⟩
  | succ n ih =>
      have hle := count_le_count hqp n
      rw [Nat.count_succ, Nat.count_succ]
      constructor
      · intro heq t ht hp
        have hlast : p n → q n := by
          intro hpn
          by_contra hqn
          rw [if_pos hpn, if_neg hqn] at heq
          omega
        rcases Nat.lt_succ_iff_lt_or_eq.mp ht with ht | rfl
        · refine ih.mp ?_ t ht hp
          by_cases hpn : p n
          · rw [if_pos hpn, if_pos (hlast hpn)] at heq
            omega
          · rw [if_neg hpn, if_neg fun hqn => hpn (hqp n hqn)] at heq
            omega
        · exact hlast hp
      · intro hall
        rw [ih.mpr fun t ht => hall t (by omega)]
        have hiff : p n ↔ q n := ⟨hall n (by omega), hqp n⟩
        simp only [hiff]

end Counts

end SimpleCpu.CoSim
