import SimpleCpu.Pipeline.Refinement
import SimpleCpu.Pipeline.ZeroReg
import SimpleCpu.RiscV.Top

/-!
# The RISC-V pipeline as an instance of the general one

`core` collects what `top` decides about an instruction, `Top.abs` reads a state of the
general pipeline off the registers, and `abs_clock` says that one clock of `top` is one
step of the general pipeline.  What the general pipeline refines, `top` refines.
-/

namespace SimpleCpu.RiscV

open SimpleCpu.Rtl SimpleCpu.Pipeline

abbrev Dmem := BitVec 32 → BitVec 32

/-- The second operand travels with every instruction, but only a store uses it. -/
def MemPipeReg.masked (m : MemPipeReg) : MemPipeReg :=
  { m with rDataP2 := if m.memWr then m.rDataP2 else 0 }

/-- What the write port and the hazard unit see of `wb_pipe_reg`. -/
def WbPipeReg.abs (w : WbPipeReg) : WriteBack Word (BitVec 5) where
  valid := w.instrRetired
  wrEn := w.rfEn
  fwdEn := w.rfEn
  rd := w.rd
  data := w.wrData

def ExPipeReg.abs (r : ExPipeReg) : InExecute Word IssueOut where
  dec := r.toIssueOut
  pred := r.brnPred
  predPc := r.nextPredPc
  v1 := r.rDataP1
  v2 := r.rDataP2

/-- The functions of the RISC-V pipeline, for a given instruction memory. -/
def core (imem : Word → Word) :
    Core Word (BitVec 5) IssueOut MemPipeReg Dmem Bpred where
  zeroReg := 0
  zeroVal := 0
  imem := instrMemRead imem
  nextSeq pc := (adder pc 0x4 false).sum
  decode i p n := issueStage false { instr := i, currPc := p, nextPc := n }
  jumpTarget i p n := nextJmpPc { instr := i, currPc := p, nextPc := n }
  issBubble := IssPipeReg.abs {}
  exBubble := ExPipeReg.abs {}
  jump d := d.jump
  branch d := d.isBType
  rs1 d := d.rs1
  rs2 d := d.rs2
  brnTarget d := d.nextBrnPc
  seqPc d := d.nextSeqPc
  exPc d := d.currPc
  taken d v1 v2 := d.branchTaken (d.alu v1 v2)
  exec d v1 v2 := (d.toMem v1 v2).masked
  fwdEn m := m.rfEn
  rd m := m.rd
  fwdVal1 m dmem := if m.isLw then dataMemRead dmem m.aluRes else m.aluRes
  fwdVal2 m := m.aluRes
  finish m dmem := (m.toWb dmem).abs
  store m dmem := dataMemWrite dmem m.memWr m.aluRes m.rDataP2
  predict b pc := (b.takeness pc, b.targetAddr pc)
  train b brn pc corr target := b.feedback brn pc corr target

/-- The registers of `top` as a state of the general pipeline. -/
def Top.abs (s : Top) : State Word (BitVec 5) IssueOut MemPipeReg Dmem Bpred where
  pc := s.currPc
  iss := s.iss.abs
  ex := s.ex.abs
  mid := s.mem.masked
  wb := s.wb.abs
  regs := s.regFile
  mem := s.dmem
  bpred := s.bpred
  shadow := s.tb.abs

section Signals

variable (imem : Word → Word) (s : Top)

@[simp] theorem issDec_abs : (core imem).issDec s.abs = issueStage false s.iss := rfl

/-- The first forwarding mux. -/
theorem op1_abs : (core imem).op1 s.abs = s.rDataP1 := by
  simp only [Core.op1, Core.fwdMid, Core.fwdWb, Top.rDataP1, fwdSelect]
  simp only [core, Top.abs, ExPipeReg.abs, WbPipeReg.abs, MemPipeReg.masked]
  grind

theorem op2_abs : (core imem).op2 s.abs = s.rDataP2 := by
  simp only [Core.op2, Core.fwdMid, Core.fwdWb, Top.rDataP2, fwdSelect]
  simp only [core, Top.abs, ExPipeReg.abs, WbPipeReg.abs, MemPipeReg.masked]
  grind

theorem exTaken_abs : (core imem).exTaken s.abs = s.branchTaken := by
  unfold Core.exTaken
  rw [op1_abs, op2_abs]
  rfl

theorem exCorr_abs : (core imem).exCorr s.abs = s.brnCorrPred := by
  unfold Core.exCorr
  rw [exTaken_abs]
  rfl

theorem nextPc_abs : (core imem).nextPc s.abs = s.nextPc false := by
  unfold Core.nextPc Core.nextCalPc
  rw [exTaken_abs, exCorr_abs]
  rfl

theorem flushEx_abs :
    (core imem).flushEx s.abs = (s.flushEx || s.flushIncorrPredEx) := by
  unfold Core.flushEx
  rw [exTaken_abs, exCorr_abs]
  rfl

theorem flushIss_abs :
    (core imem).flushIss s.abs = (s.flushIss false || s.flushIncorrPredIss) := by
  unfold Core.flushIss
  rw [exTaken_abs, exCorr_abs]
  rfl

/-- Masking the store data of an instruction that does not store changes no memory. -/
theorem dataMemWrite_masked (m : MemPipeReg) (dmem : Dmem) :
    dataMemWrite dmem m.memWr m.aluRes m.masked.rDataP2 =
      dataMemWrite dmem m.memWr m.aluRes m.rDataP2 := by
  cases hm : m.memWr <;> simp [dataMemWrite, MemPipeReg.masked, hm]

/-- One clock of `top` is one step of the general pipeline. -/
theorem abs_clock : (s.clock imem false).abs = (core imem).step s.abs := by
  have hiss : (s.clock imem false).iss.abs =
      if s.flushIss false || s.flushIncorrPredIss then (core imem).issBubble
      else (core imem).fetched s.abs := by
    simp only [Top.clock, Bool.false_or]
    split <;> rfl
  have hex : (s.clock imem false).ex.abs =
      if s.flushEx || s.flushIncorrPredEx then (core imem).exBubble
      else (core imem).issued s.abs := by
    simp only [Top.clock, Bool.false_or]
    split <;> rfl
  have hmem : (s.clock imem false).dmem = (core imem).store s.abs.mid s.abs.mem :=
    (dataMemWrite_masked s.mem s.dmem).symm
  unfold Core.step
  rw [nextPc_abs, flushEx_abs, flushIss_abs, op1_abs, op2_abs, exCorr_abs, ← hiss, ← hex,
    ← hmem]
  rfl

end Signals

/-- The clocks of `top` are the steps of the general pipeline. -/
theorem abs_run (imem : Word → Word) (s : Top) (t : Nat) :
    (s.run imem t).abs = (core imem).run s.abs t := by
  induction t with
  | zero => rfl
  | succ t ih =>
      show ((s.run imem t).clock imem false).abs = _
      rw [abs_clock, ih]
      rfl

/-! ## Register zero -/

/-- `wr_data_rf_wb_ret` is zero when `rd` is, and a flushed execute register holds zeros. -/
theorem masksZero (imem : Word → Word) : (core imem).MasksZero where
  finish m dmem _ hrd := by
    have hrd' : (m.toWb dmem).rd = 0 := hrd
    show (m.toWb dmem).wrData = 0
    unfold WbPipeReg.wrData
    rw [if_neg (not_not_intro hrd')]
  bubble1 _ := rfl
  bubble2 _ := rfl

theorem Top.IsReset.holdsZero {s : Top} (h : s.IsReset) (h0 : s.regFile 0 = 0)
    (imem : Word → Word) : (core imem).HoldsZero s.abs where
  regs := h0
  wb hw := by
    have hw' : s.wb.rfEn = true := hw
    rw [h.wb] at hw'
    exact absurd hw' nofun
  v1 _ := by
    show s.ex.rDataP1 = 0
    rw [h.ex]
  v2 _ := by
    show s.ex.rDataP2 = 0
    rw [h.ex]

/-- Whatever words are fetched, `x0` is zero before and after the falling edge of every
cycle from reset, and an instruction in the execute stage whose `rs1` or `rs2` field is 0
is handed zero there. -/
theorem x0_hardwired {s : Top} (h : s.IsReset) (h0 : s.regFile 0 = 0) (imem : Word → Word)
    (t : Nat) :
    (s.run imem t).regFile 0 = 0 ∧ (s.run imem t).regFileNext 0 = 0 ∧
      ((s.run imem t).ex.rs1 = 0 → (s.run imem t).rDataP1 = 0) ∧
      ((s.run imem t).ex.rs2 = 0 → (s.run imem t).rDataP2 = 0) := by
  have hzero := (h.holdsZero h0 imem).run (masksZero imem) t
  rw [← abs_run] at hzero
  refine ⟨hzero.regs, hzero.apply_zeroReg, ?_, ?_⟩
  · intro hrs
    rw [← op1_abs imem]
    exact hzero.op1_eq hrs
  · intro hrs
    rw [← op2_abs imem]
    exact hzero.op2_eq hrs

/-- `ADDI x0, x0, 5` has computed 5 when `ADD x1, x0, x0` reads `x0` right behind it. -/
theorem x0_hardwired_addi :
    let imem : Word → Word := fun i => if i = 0 then 0x00500013 else 0x000000B3
    let s : Top :=
      { currPc := 0x2000, iss := {}, ex := {}, mem := {}, wb := {}, regFile := fun _ => 0
        dmem := fun _ => 0, bpred := { bpred := fun _ => 0, btb := fun _ => 0 }, tb := {} }
    (s.run imem 3).mem.aluRes = 5 ∧ (s.run imem 3).rDataP1 = 0 := by
  intro imem s
  have hreset : s.IsReset := ⟨rfl, rfl, rfl, rfl, rfl⟩
  obtain ⟨-, -, hp1, -⟩ := x0_hardwired hreset rfl imem 3
  exact ⟨by decide +kernel, hp1 (by decide +kernel)⟩

end SimpleCpu.RiscV
