import SimpleCpu.Pipeline.Refinement

/-!
# Two runs of one pipeline

What a pipeline retires is determined by the sequential machine, so two clean runs from
the same architectural state retire the same, whatever their predictors hold
(`CleanRun.retired_same`).  Here the number of instructions is not fixed in advance: a
run is clean as long as no more than `k` instructions have been retired.
-/

namespace SimpleCpu.Pipeline

variable {W R D M Mem P : Type} [DecidableEq R] [DecidableEq W]

namespace Core

variable (C : Core W R D M Mem P)

/-- How many instructions are retired before clock `t`. -/
def retiredBefore (s₀ : State W R D M Mem P) (t : Nat) : Nat :=
  Nat.count (fun u => (C.run s₀ u).wb.valid = true) t

/-- Every cycle before which at most `k` instructions have been retired is clean. -/
structure CleanRun (k : Nat) (a₀ : Arch W R Mem) (s₀ : State W R D M Mem P) : Prop where
  lawful : C.Lawful
  regular : ∀ i, C.Regular (C.seqDec (C.seqRun a₀ i))
  zeroReg : a₀.regs C.zeroReg = C.zeroVal
  reset : C.AtReset a₀ s₀
  clean : ∀ K t, C.retiredBefore s₀ t ≤ k →
    (∀ u ≤ t, C.Inv K a₀ (C.track s₀ u) (C.run s₀ u)) →
    C.Clean (C.run s₀ t) K (C.track s₀ t)

variable {C} {k : Nat} {a₀ : Arch W R Mem} {s₀ s₁ : State W R D M Mem P}

theorem track_n_mono {t u : Nat} (h : t ≤ u) : (C.track s₀ t).n ≤ (C.track s₀ u).n := by
  induction u with
  | zero =>
      obtain rfl : t = 0 := by omega
      exact Nat.le_refl _
  | succ u ih =>
      rcases Nat.lt_or_eq_of_le h with hlt | rfl
      · have hstep : (C.track s₀ u).n ≤ (C.track s₀ (u + 1)).n := by
          rw [track_succ, stepTrack_n]
          unfold Track.iMid
          omega
        exact Nat.le_trans (ih (by omega)) hstep
      · exact Nat.le_refl _

/-- Past the instructions that are followed nothing is left to check. -/
theorem Clean.of_le {s : State W R D M Mem P} {K : Nat} {T : Track} (h : K ≤ T.n) :
    C.Clean s K T := by
  have hiEx : ¬ T.iEx < K := by
    unfold Track.iEx Track.iMid
    omega
  exact ⟨fun _ hK => absurd hK hiEx, fun _ hK => absurd hK hiEx, fun _ hK => absurd hK hiEx⟩

namespace CleanRun

/-- The instructions of the sequential run up to the `n`-th, if the ones before it
account for no more than `k` retirements. -/
theorem runHyps_of_count (h : C.CleanRun k a₀ s₀) {n : Nat}
    (hn : Nat.count (fun i => (C.seqWb (C.seqRun a₀ i)).valid = true) n ≤ k) :
    RunHyps C (n + 1) a₀ s₀ where
  lawful := h.lawful
  regular i _ := h.regular i
  zeroReg := h.zeroReg
  reset := h.reset
  clean t hupto := by
    by_cases hlt : n < (C.track s₀ t).n
    · exact Clean.of_le hlt
    · refine h.clean _ t ?_ hupto
      unfold retiredBefore
      rw [count_valid t hupto (by omega)]
      exact Nat.le_trans (Nat.count_monotone _ (by omega)) hn

/-- The instructions up to the one that is written back at clock `t`. -/
theorem runHyps_of_written (h : C.CleanRun k a₀ s₀) {t : Nat}
    (hwb : C.Inv ((C.track s₀ t).n + 1) a₀ (C.track s₀ t) (C.run s₀ t) →
      (C.track s₀ t).wb = true)
    (hk : C.retiredBefore s₀ t ≤ k) : RunHyps C ((C.track s₀ t).n + 1) a₀ s₀ where
  lawful := h.lawful
  regular i _ := h.regular i
  zeroReg := h.zeroReg
  reset := h.reset
  clean u hupto := by
    rcases Nat.lt_or_ge t u with hlt | hge
    · -- the instruction has left the pipeline
      have hnext : (C.track s₀ (t + 1)).n = (C.track s₀ t).n + 1 := by
        rw [track_succ, stepTrack_n]
        simp [Track.iMid, hwb (hupto t (by omega))]
      refine Clean.of_le ?_
      rw [← hnext]
      exact track_n_mono hlt
    · refine h.clean _ u ?_ hupto
      exact Nat.le_trans (Nat.count_monotone _ hge) hk

/-- The instructions up to the one that is retired at clock `t`. -/
theorem runHyps_of_retired (h : C.CleanRun k a₀ s₀) {t : Nat}
    (hv : (C.run s₀ t).wb.valid = true) (hk : C.retiredBefore s₀ t ≤ k) :
    RunHyps C ((C.track s₀ t).n + 1) a₀ s₀ := by
  refine h.runHyps_of_written (fun hinv => ?_) hk
  by_contra hwb
  have hempty := (hinv.wbEmpty (by simpa using hwb) (by omega)).valid
  simp [hv] at hempty

/-- What one run retires as its `k`-th instruction, the other one retires as well. -/
theorem retired_same (h : C.CleanRun k a₀ s₀) (h' : C.CleanRun k a₀ s₁) {t : Nat}
    (hv : (C.run s₀ t).wb.valid = true) (hk : C.retiredBefore s₀ t = k) :
    ∃ t', C.retiredBefore s₁ t' = k ∧ (C.run s₁ t').wb = (C.run s₀ t).wb ∧
      (C.run s₁ t').shadow.wb = (C.run s₀ t).shadow.wb := by
  have hrun := h.runHyps_of_retired hv (Nat.le_of_eq hk)
  have hcount := count_valid t (fun u _ => hrun.inv u) (by omega)
  obtain ⟨hwb, hsh⟩ := hrun.retired_of_valid t (by omega) hv
  have hk' : Nat.count (fun i => (C.seqWb (C.seqRun a₀ i)).valid = true) (C.track s₀ t).n = k :=
    hcount.symm.trans hk
  have hrun' := h'.runHyps_of_count (Nat.le_of_eq hk')
  obtain ⟨t', -, -, hwb', hsh', -, -, hcount'⟩ := hrun'.retires (C.track s₀ t).n (by omega)
  exact ⟨t' + 2, hcount'.trans hk', hwb'.trans hwb.symm, hsh'.trans hsh.symm⟩

end CleanRun

end Core

end SimpleCpu.Pipeline
