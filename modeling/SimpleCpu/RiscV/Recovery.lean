import SimpleCpu.Pipeline.Recovery
import SimpleCpu.RiscV.CoreCorrect

/-!
# Recovery of the RISC-V pipeline from a wrong prediction

The flush terms that come from the execute stage and the two muxes in front of the program
counter agree: `mispredicted_recovers`.  The argument is the general one of
`Pipeline.Recovery`.
-/

namespace SimpleCpu.RiscV

open SimpleCpu.Rtl SimpleCpu.Pipeline

namespace Top

section Definitions

variable (s : Top)

/-- The address that follows the instruction in EX. -/
def successor : BitVec 32 := if s.branchTaken then s.ex.nextBrnPc else s.ex.nextSeqPc

/-- The address that the prediction carried with it says follows. -/
def predicted : BitVec 32 := if s.ex.brnPred then s.ex.nextPredPc else s.ex.nextSeqPc

/-- EX clears a younger register: the terms of `flush_ex | flush_incorr_pred_ex` and of
`flush_iss | flush_incorr_pred_iss` other than a jump in the issue stage. -/
def squashes : Bool :=
  s.flushEx || s.flushIncorrPredEx || (s.branchTaken && !s.brnCorrPred) || s.flushIncorrPredIss

end Definitions

section Recovery

variable (imem : Word → Word) {s : Top}

theorem successor_abs : (core imem).successor s.abs = s.successor := by
  unfold Core.successor
  rw [exTaken_abs]
  rfl

theorem predicted_abs : (core imem).predicted s.abs = s.predicted := rfl

/-- The terms are those of the general pipeline. -/
theorem redirect_abs (hjump : s.ex.jump = false) : (core imem).redirect s.abs = s.squashes := by
  unfold Core.redirect squashes flushEx flushIncorrPredEx flushIncorrPredIss
  rw [exTaken_abs, exCorr_abs, hjump]
  show (s.branchTaken && !s.brnCorrPred || !s.ex.jump && (s.ex.brnPred && !s.brnCorrPred)) = _
  rw [hjump, Bool.not_false, Bool.true_and]
  cases s.branchTaken && !s.brnCorrPred <;> cases s.ex.brnPred && !s.brnCorrPred <;> rfl

/-- The clock in which EX clears the younger registers. -/
theorem clock_of_squashes (hjump : s.ex.jump = false) (h : s.squashes = true) :
    s.nextPc false = s.successor ∧ (s.clock imem false).iss = {} ∧
      (s.clock imem false).ex = {} := by
  have hredirect : (core imem).redirect s.abs = true := (redirect_abs imem hjump).trans h
  have hpc := Core.nextPc_eq_successor lawful hredirect hjump
  have hiss := Core.flushIss_of_redirect hredirect
  have hex := Core.flushEx_of_redirect hredirect
  rw [nextPc_abs, successor_abs] at hpc
  rw [flushIss_abs] at hiss
  rw [flushEx_abs] at hex
  refine ⟨hpc, ?_, ?_⟩
  · show (if (false || (s.flushIss false || s.flushIncorrPredIss)) = true then _ else _) = _
    rw [Bool.false_or, if_pos hiss]
  · show (if (false || (s.flushEx || s.flushIncorrPredEx)) = true then _ else _) = _
    rw [Bool.false_or, if_pos hex]

end Recovery

end Top

/-- With an instruction other than a jump in EX, a wrong prediction turns fetch to the
correct successor and clears both younger registers, and whenever EX clears one of them
fetch turns to the correct successor. -/
theorem mispredicted_recovers {s : Top} (hjump : s.ex.jump = false) (imem : Word → Word) :
    (s.successor ≠ s.predicted →
      s.nextPc false = s.successor ∧ (s.clock imem false).iss = {} ∧
        (s.clock imem false).ex = {}) ∧
      (s.squashes = true → s.nextPc false = s.successor) := by
  constructor
  · intro hne
    refine Top.clock_of_squashes imem hjump ?_
    rw [← Top.redirect_abs imem hjump]
    refine Core.redirect_of_ne hjump ?_
    rw [Top.successor_abs, Top.predicted_abs]
    exact hne
  · intro hsquash
    exact (Top.clock_of_squashes imem hjump hsquash).1

/-- `BEQ x0, x0, +12` at 0x2000 in EX, predicted not taken. -/
def takenInEx : Top :=
  { Top.cleared fun _ => 0 with
    currPc := 0x2008
    ex :=
      { toIssueOut :=
          { valid := true, isBType := true, op2Sel := 0b11, aluFun := SUB_OP
            nextSeqPc := 0x2004, currPc := 0x2000, nextBrnPc := 0x200C } } }

theorem mispredicted_recovers_takenInEx :
    takenInEx.successor = 0x200C ∧ takenInEx.nextPc false = takenInEx.successor ∧
      (takenInEx.clock (fun _ => 0) false).iss = {} ∧
      (takenInEx.clock (fun _ => 0) false).ex = {} :=
  ⟨by decide +kernel,
    (mispredicted_recovers (s := takenInEx) rfl fun _ => 0).1 (by decide +kernel)⟩

end SimpleCpu.RiscV
