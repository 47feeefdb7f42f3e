import SimpleCpu.Pipeline.Refinement
import SimpleCpu.Mips.Top

/-!
# The MIPS pipeline as an instance of the general one

`core` collects what `top` decides about an instruction, `Top.abs` reads a state of the
general pipeline off the registers, and `abs_clock` says that one clock of `top` is one
step of the general pipeline.
-/

namespace SimpleCpu.Mips

open SimpleCpu.Rtl SimpleCpu.Pipeline

abbrev Dmem := BitVec 32 → BitVec 32

/-- Store data that is not stored, and a result that is neither written back nor the
address of a store, reach no register and no memory. -/
def MemPipeReg.masked (m : MemPipeReg) : MemPipeReg :=
  { m with
    resAlu := if m.regWr || m.memWr then m.resAlu else 0
    rDataP2 := if m.memWr then m.rDataP2 else 0 }

/-- What the write port and the hazard unit see of `wb_pipe_reg`. -/
def WbPipeReg.abs (w : WbPipeReg) : WriteBack Word (BitVec 5) where
  valid := w.instrRetired
  wrEn := w.regWr || w.useLinkReg
  fwdEn := w.regWr
  rd := w.rd
  data := if w.regWr || w.useLinkReg then w.wrData else 0

def ExPipeReg.abs (r : ExPipeReg) : InExecute Word IssueOut where
  dec := r.toIssueOut
  pred := r.brnPred
  predPc := r.nextPredPc
  v1 := r.rDataP1
  v2 := r.rDataP2

/-- The functions of the MIPS pipeline, for a given instruction memory. -/
def core (imem : Word → Word) :
    Core Word (BitVec 5) IssueOut MemPipeReg Dmem Bpred where
  zeroReg := 0
  zeroVal := 0
  imem := instrMemRead imem
  nextSeq pc := (adder pc 0x4 false).sum
  decode i p n := issueStage false { instr := i, currPc := p, nextPc := n }
  jumpTarget i _ n := nextJmpPc n i
  issBubble := IssPipeReg.abs {}
  exBubble := ExPipeReg.abs {}
  jump d := d.jump
  branch d := d.branch
  rs1 d := d.rs
  rs2 d := d.rt
  brnTarget d := d.nextBrnEqPc
  seqPc d := d.nextSeqPc
  exPc d := d.currPc
  taken d v1 v2 := d.branchTaken (d.alu v1 v2)
  exec d v1 v2 := (d.toMem v1 v2).masked
  fwdEn m := m.regWr
  rd m := m.rd
  fwdVal1 m dmem := if m.isLw then dataMemRead dmem m.resAlu else m.resAlu
  fwdVal2 m := m.resAlu
  finish m dmem := (m.toWb dmem).abs
  store m dmem := dataMemWrite dmem m.memWr m.resAlu m.rDataP2
  predict b pc := (b.takeness pc, b.targetAddr pc)
  train b brn pc corr target := b.feedback brn pc corr target

/-- The registers of `top` as a state of the general pipeline. -/
def Top.abs (s : Top) : State Word (BitVec 5) IssueOut MemPipeReg Dmem Bpred where
  pc := s.currPc
  iss := s.iss.abs
  ex := s.ex.abs
  mid := s.mem.masked
  wb := s.wb.abs
  regs := s.regFile
  mem := s.dmem
  bpred := s.bpred
  shadow := s.tb.abs

section Signals

variable (imem : Word → Word) (s : Top)

@[simp] theorem issDec_abs : (core imem).issDec s.abs = issueStage false s.iss := rfl

/-- The first forwarding mux. -/
theorem op1_abs : (core imem).op1 s.abs = s.rDataP1 := by
  simp only [Core.op1, Core.fwdMid, Core.fwdWb, Top.rDataP1, fwdSelect]
  simp only [core, Top.abs, ExPipeReg.abs, WbPipeReg.abs, MemPipeReg.masked]
  grind

theorem op2_abs : (core imem).op2 s.abs = s.rDataP2 := by
  simp only [Core.op2, Core.fwdMid, Core.fwdWb, Top.rDataP2, fwdSelect]
  simp only [core, Top.abs, ExPipeReg.abs, WbPipeReg.abs, MemPipeReg.masked]
  grind

theorem exTaken_abs : (core imem).exTaken s.abs = s.branchTaken := by
  unfold Core.exTaken
  rw [op1_abs, op2_abs]
  rfl

theorem exCorr_abs : (core imem).exCorr s.abs = s.brnCorrPred := by
  unfold Core.exCorr
  rw [exTaken_abs]
  rfl

theorem nextPc_abs : (core imem).nextPc s.abs = s.nextPc false := by
  unfold Core.nextPc Core.nextCalPc
  rw [exTaken_abs, exCorr_abs]
  rfl

theorem flushEx_abs :
    (core imem).flushEx s.abs = (s.flushEx || s.flushIncorrPredEx) := by
  unfold Core.flushEx
  rw [exTaken_abs, exCorr_abs]
  rfl

theorem flushIss_abs :
    (core imem).flushIss s.abs = (s.flushIss false || s.flushIncorrPredIss) := by
  unfold Core.flushIss
  rw [exTaken_abs, exCorr_abs]
  rfl

/-- Masking changes no store. -/
theorem dataMemWrite_masked (m : MemPipeReg) (dmem : Dmem) :
    dataMemWrite dmem m.memWr m.masked.resAlu m.masked.rDataP2 =
      dataMemWrite dmem m.memWr m.resAlu m.rDataP2 := by
  cases hm : m.memWr <;> simp [dataMemWrite, dataMemWriteAt, MemPipeReg.masked, hm]

/-- Masking changes nothing that is written back. -/
theorem toWb_masked (m : MemPipeReg) (dmem : Dmem) :
    (m.masked.toWb dmem).abs = (m.toWb dmem).abs := by
  cases hr : m.regWr <;> cases hm : m.memWr <;> cases hl : m.useLinkReg <;>
    simp [MemPipeReg.masked, MemPipeReg.toWb, WbPipeReg.abs, WbPipeReg.wrData, wrDataRf, hr,
      hm, hl]

/-- The write port. -/
theorem regFileNext_abs : s.abs.wb.apply s.abs.regs = s.regFileNext := by
  simp only [WriteBack.apply, Top.abs, WbPipeReg.abs, Top.regFileNext]
  split <;> rfl

/-- One clock of `top` is one step of the general pipeline. -/
theorem abs_clock : (s.clock imem false).abs = (core imem).step s.abs := by
  have hiss : (s.clock imem false).iss.abs =
      if s.flushIss false || s.flushIncorrPredIss then (core imem).issBubble
      else (core imem).fetched s.abs := by
    simp only [Top.clock, Bool.false_or]
    split <;> rfl
  have hregs := regFileNext_abs s
  have hex : (s.clock imem false).ex.abs =
      if s.flushEx || s.flushIncorrPredEx then (core imem).exBubble
      else (core imem).issued s.abs := by
    unfold Core.issued
    rw [hregs]
    simp only [Top.clock, Bool.false_or]
    split <;> rfl
  have hmem : (s.clock imem false).dmem = (core imem).store s.abs.mid s.abs.mem :=
    (dataMemWrite_masked s.mem s.dmem).symm
  have hwb : (s.clock imem false).wb.abs = (core imem).finish s.abs.mid s.abs.mem :=
    (toWb_masked s.mem s.dmem).symm
  unfold Core.step
  rw [nextPc_abs, flushEx_abs, flushIss_abs, op1_abs, op2_abs, exCorr_abs, ← hiss, ← hex,
    ← hmem, ← hwb, hregs]
  rfl

end Signals

/-- The clocks of `top` are the steps of the general pipeline. -/
theorem abs_run (imem : Word → Word) (s : Top) (t : Nat) :
    (s.run imem t).abs = (core imem).run s.abs t := by
  induction t with
  | zero => rfl
  | succ t ih =>
      show ((s.run imem t).clock imem false).abs = _
      rw [abs_clock, ih]
      rfl

end SimpleCpu.Mips
