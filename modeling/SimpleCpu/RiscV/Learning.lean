import SimpleCpu.RiscV.Top
import SimpleCpu.Rtl.Learning

/-!
# What the RISC-V predictor learns

`executes_of_clocks` finds an execution in the sense of `Rtl.Learning` in three clocks of
`top`: the branch is fetched, issued and resolved.  `branch_learning_iff` says which
outcomes are learned.
-/

namespace SimpleCpu.RiscV

open SimpleCpu.Rtl

namespace Top

variable (imem : BitVec 32 → BitVec 32) (s : Top)

/-- What `top` feeds back to the predictor in one clock. -/
def feedbackPort : Feedback where
  brn := s.ex.isBType
  addr := s.ex.currPc
  fdback := s.brnCorrPred
  btbAddr := s.ex.nextBrnPc

theorem clock_bpred : (s.clock imem false).bpred = s.bpred.update s.feedbackPort := rfl

theorem brnCorrPred_eq :
    s.brnCorrPred =
      Entry.corrPred s.ex.brnPred s.branchTaken s.ex.nextBrnPc s.ex.nextPredPc := rfl

/-- The issue register takes the prediction of the address that is fetched. -/
theorem clock_iss (h : (s.flushIss false || s.flushIncorrPredIss) = false) :
    (s.clock imem false).iss.currPc = s.currPc ∧
      (s.clock imem false).iss.brnPred = s.bpred.takeness s.currPc ∧
      (s.clock imem false).iss.nextPredPc = s.bpred.targetAddr s.currPc := by
  have hiss : (s.clock imem false).iss =
      { nextPc := s.nextSeqPc, instr := instrMemRead imem s.currPc
        brnPred := s.bpred.takeness s.currPc, currPc := s.currPc
        nextPredPc := s.bpred.targetAddr s.currPc } := by
    show (if (false || (s.flushIss false || s.flushIncorrPredIss)) = true then _ else _) = _
    rw [Bool.false_or, h, if_neg Bool.false_ne_true]
  rw [hiss]
  exact ⟨rfl, rfl, rfl⟩

/-- The execute register takes the prediction along. -/
theorem clock_ex (h : (s.flushEx || s.flushIncorrPredEx) = false) :
    (s.clock imem false).ex.currPc = s.iss.currPc ∧
      (s.clock imem false).ex.brnPred = s.iss.brnPred ∧
      (s.clock imem false).ex.nextPredPc = s.iss.nextPredPc := by
  have hex : (s.clock imem false).ex =
      { toIssueOut := issueStage false s.iss
        nextPredPc := s.iss.nextPredPc
        rDataP1 := s.regFileNext (issueStage false s.iss).rs1
        rDataP2 := s.regFileNext (issueStage false s.iss).rs2
        brnPred := s.iss.brnPred } := by
    show (if (false || (s.flushEx || s.flushIncorrPredEx)) = true then _ else _) = _
    rw [Bool.false_or, h, if_neg Bool.false_ne_true]
  rw [hex]
  exact ⟨rfl, rfl, rfl⟩

end Top

/-- A branch that is fetched in one clock and is in EX two clocks later is executed, if no
update of its entry comes between. -/
theorem executes_of_clocks {imem : BitVec 32 → BitVec 32} {s s₁ s₂ : Top}
    (h₁ : s₁ = s.clock imem false) (h₂ : s₂ = s₁.clock imem false)
    (hiss : (s.flushIss false || s.flushIncorrPredIss) = false)
    (hex : (s₁.flushEx || s₁.flushIncorrPredEx) = false) (hb : s₂.ex.isBType = true)
    (hspare : s.feedbackPort.Spares s.currPc) (hspare₁ : s₁.feedbackPort.Spares s.currPc) :
    Rtl.Executes s.currPc s₂.branchTaken s₂.ex.nextBrnPc s.bpred (s₂.clock imem false).bpred := by
  obtain ⟨hpc₁, hpred₁, htarget₁⟩ := s.clock_iss imem hiss
  obtain ⟨hpc, hpred, htarget⟩ := s₁.clock_ex imem hex
  rw [← h₁] at hpc₁ hpred₁ htarget₁
  rw [← h₂] at hpc hpred htarget
  rw [hpc₁] at hpc
  rw [hpred₁] at hpred
  rw [htarget₁] at htarget
  refine ⟨[s.feedbackPort, s₁.feedbackPort], [], ?_, ?_, ?_⟩
  · exact List.forall_mem_cons.mpr ⟨hspare, List.forall_mem_singleton.mpr hspare₁⟩
  · exact fun f hf => absurd hf List.not_mem_nil
  · have hbpred : s₂.bpred = (s.bpred.update s.feedbackPort).update s₁.feedbackPort := by
      rw [h₂, Top.clock_bpred, h₁, Top.clock_bpred]
    show s₂.bpred.feedback s₂.ex.isBType s₂.ex.currPc s₂.brnCorrPred s₂.ex.nextBrnPc = _
    rw [Top.brnCorrPred_eq, hbpred, hb, hpc, hpred, htarget]
    rfl

/-- Two executions of a branch with one outcome teach the predictor that outcome exactly if
the branch is taken, its target is 0, or its counter was odd before; and from a counter at
zero a branch that is never taken is never predicted taken exactly if its target is 0. -/
theorem branch_learning_iff (pc target : BitVec 32) :
    (∀ (taken : Bool) (b b₁ b₂ : Bpred),
      Rtl.Executes pc taken target b b₁ → Rtl.Executes pc taken target b₁ b₂ →
        (b₂.takeness pc = taken ∧ (taken = true → b₂.targetAddr pc = target) ↔
          taken = true ∨ target = 0 ∨ (b.bpred (pc.extractLsb' 0 10)).getLsbD 0 = true)) ∧
      ∀ tables : Nat → Bpred, (tables 0).bpred (pc.extractLsb' 0 10) = 0 →
        (∀ n, Rtl.Executes pc false target (tables n) (tables (n + 1))) →
          ((∀ n, (tables n).takeness pc = false) ↔ target = 0) := by
  constructor
  · intro taken b b₁ b₂ h₁ h₂
    refine Iff.trans ?_ (predicts_iff h₁ h₂)
    rw [takeness_eq, targetAddr_eq]
    exact ⟨fun h => ⟨h.1, h.2⟩, fun h => ⟨h.outcome, h.target⟩⟩
  · intro tables hzero hstep
    exact never_predicted_taken_iff hzero hstep

/-- Two executions of a branch at 0x2000 to 0x2008 that is not taken, from zeroed tables:
the prediction is "taken". -/
theorem not_taken_twice_predicts_taken :
    ¬ ∀ (pc target : BitVec 32) (taken : Bool) (b b₁ b₂ : Bpred),
      Rtl.Executes pc taken target b b₁ → Rtl.Executes pc taken target b₁ b₂ →
        b₂.takeness pc = taken ∧ (taken = true → b₂.targetAddr pc = target) := by
  intro h
  let execute (b : Bpred) : Bpred :=
    b.feedback true 0x2000
      (Entry.corrPred (b.takeness 0x2000) false 0x2008 (b.targetAddr 0x2000)) 0x2008
  have hexecutes : ∀ b, Rtl.Executes 0x2000 false 0x2008 b (execute b) := fun b =>
    ⟨[], [], fun f hf => absurd hf List.not_mem_nil, fun f hf => absurd hf List.not_mem_nil, rfl⟩
  let zeroed : Bpred := { bpred := fun _ => 0, btb := fun _ => 0 }
  have hpredicted : (execute (execute zeroed)).takeness 0x2000 = true := by decide +kernel
  have hlearned := (h _ _ _ _ _ _ (hexecutes zeroed) (hexecutes (execute zeroed))).1
  exact Bool.false_ne_true (hlearned.symm.trans hpredicted)

end SimpleCpu.RiscV
