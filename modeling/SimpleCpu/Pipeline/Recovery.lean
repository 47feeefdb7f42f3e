import SimpleCpu.Pipeline.Step

/-!
# Recovery from a wrong prediction

An instruction in the execute stage that is no jump has one successor and carries a
prediction of it.  Where the two differ the stage redirects fetch (`redirect_of_ne`), and a
redirection goes to the successor (`nextPc_eq_successor`), whatever the issue stage and the
predictor ask for.
-/

namespace SimpleCpu.Pipeline

namespace Core

variable {W R D M Mem P : Type} [DecidableEq R] [DecidableEq W]

section Definitions

variable (C : Core W R D M Mem P) (s : State W R D M Mem P)

/-- The address that follows the instruction in the execute stage. -/
def successor : W := if C.exTaken s then C.brnTarget s.ex.dec else C.seqPc s.ex.dec

/-- The address that its prediction says follows. -/
def predicted : W := if s.ex.pred then s.ex.predPc else C.seqPc s.ex.dec

end Definitions

variable {C : Core W R D M Mem P} {s : State W R D M Mem P}

/-- A prediction that is confirmed is the right one. -/
theorem successor_eq_of_corr (h : C.exCorr s = true) : C.successor s = C.predicted s := by
  unfold successor predicted
  rw [exCorr_pred h, exCorr_target h]

/-- A wrong prediction redirects. -/
theorem redirect_of_ne (hjump : C.jump s.ex.dec = false) (h : C.successor s ≠ C.predicted s) :
    C.redirect s = true := by
  have hcorr : C.exCorr s = false := by
    rw [← Bool.not_eq_true]
    exact fun hcorr => h (successor_eq_of_corr hcorr)
  unfold redirect
  rw [hjump, hcorr, Bool.not_false, Bool.and_true, Bool.and_true, Bool.true_and,
    Bool.or_eq_true]
  -- not taken and not predicted taken would be right
  by_contra hno
  rw [not_or, Bool.not_eq_true, Bool.not_eq_true] at hno
  apply h
  unfold successor predicted
  rw [hno.1, hno.2, if_neg Bool.false_ne_true, if_neg Bool.false_ne_true]

/-- A redirection goes to the successor. -/
theorem nextPc_eq_successor (hC : C.Lawful) (h : C.redirect s = true)
    (hjump : C.jump s.ex.dec = false) : C.nextPc s = C.successor s :=
  nextPc_of_redirect hC h hjump

end Core

end SimpleCpu.Pipeline
