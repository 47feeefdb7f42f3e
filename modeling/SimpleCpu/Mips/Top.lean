import SimpleCpu.Mips.Alu
import SimpleCpu.Mips.Decode
import SimpleCpu.Mips.Memory
import SimpleCpu.Rtl.FrontEnd

/-!
# The MIPS pipeline

`top` with its pipeline registers, hazard unit, branch predictor, register file and
memories.  A state is what the registers hold right after a rising edge.  One clock
first serves the falling edge, where the register file is written and then read, and
then the rising edge, where every other register takes its next value.

The names are the source's, without the suffixes that repeat the stage.  Unconnected
ports, and the outputs nothing reads, are left out.
-/

namespace SimpleCpu.Mips

open SimpleCpu.Rtl

/-! ## Registers -/

/-- The inputs of `ex_pipe_reg` that depend on the issue register alone. -/
structure IssueOut where
  valid : Bool := false
  op : BitVec 6 := 0
  jump : Bool := false
  branch : Bool := false
  regWr : Bool := false
  memToReg : Bool := false
  memWr : Bool := false
  aluOp : BitVec 6 := 0
  aluSrc : BitVec 3 := 0
  rt : BitVec 5 := 0
  rs : BitVec 5 := 0
  rd : BitVec 5 := 0
  nextBrnEqPc : BitVec 32 := 0
  signImm : BitVec 32 := 0
  shamt : BitVec 5 := 0
  currPc : BitVec 32 := 0
  nextSeqPc : BitVec 32 := 0
  isLw : Bool := false
  useLinkReg : Bool := false

/-- `ex_pipe_reg` -/
structure ExPipeReg extends IssueOut where
  rDataP1 : BitVec 32 := 0
  rDataP2 : BitVec 32 := 0
  brnPred : Bool := false
  nextPredPc : BitVec 32 := 0

/-- `mem_pipe_reg` -/
structure MemPipeReg where
  valid : Bool := false
  regWr : Bool := false
  memToReg : Bool := false
  memWr : Bool := false
  rd : BitVec 5 := 0
  resAlu : BitVec 32 := 0
  rDataP2 : BitVec 32 := 0
  nextSeqPc : BitVec 32 := 0
  isLw : Bool := false
  useLinkReg : Bool := false

/-- `wb_pipe_reg` -/
structure WbPipeReg where
  instrRetired : Bool := false
  regWr : Bool := false
  memToReg : Bool := false
  rd : BitVec 5 := 0
  resAlu : BitVec 32 := 0
  readData : BitVec 32 := 0
  useLinkReg : Bool := false
  nextSeqPc : BitVec 32 := 0

/-- Everything `top` and its testbench hold between two rising edges. -/
structure Top where
  currPc : BitVec 32
  iss : IssPipeReg
  ex : ExPipeReg
  mem : MemPipeReg
  wb : WbPipeReg
  regFile : BitVec 5 → BitVec 32
  dmem : BitVec 32 → BitVec 32
  bpred : Bpred
  tb : Testbench

/-! ## Memories -/

/-- `instr_mem`, read port. -/
def instrMemRead (imem : BitVec 32 → BitVec 32) (addr : BitVec 32) : BitVec 32 :=
  instrMemReadAt 2048 imem addr

/-- `data_mem`, read port. -/
def dataMemRead (dmem : BitVec 32 → BitVec 32) (addr : BitVec 32) : BitVec 32 :=
  dataMemReadAt 0x2000 (0x100000#32 >>> 2) dmem addr

/-- `data_mem`, write port. -/
def dataMemWrite (dmem : BitVec 32 → BitVec 32) (wrEn : Bool) (addr wrData : BitVec 32) :
    BitVec 32 → BitVec 32 :=
  dataMemWriteAt 0x2000 (0x100000#32 >>> 2) dmem wrEn addr wrData

/-! ## Issue stage -/

/-- The issue stage, from the issue register to the inputs of `ex_pipe_reg`. -/
def issueStage (reset : Bool) (iss : IssPipeReg) : IssueOut :=
  let d := decode iss.instr
  let c := control d.op d.funct
  { valid := (d.isRType || d.isIType || d.isJType) && !reset
    op := d.op, jump := c.jump, branch := c.branch, regWr := c.regWr
    memToReg := c.memToReg, memWr := c.memWr, aluOp := c.aluOp, aluSrc := c.aluSrc
    rt := d.rt, rs := d.readReg1 c, rd := d.writeReg c
    nextBrnEqPc := (adder iss.nextPc (d.signImm c.signExt <<< 2) false).sum
    signImm := d.signImm c.signExt
    shamt := d.shamt
    currPc := iss.currPc
    nextSeqPc := iss.nextPc
    isLw := d.isLw
    useLinkReg := d.useLinkReg }

/-! ## Execute, memory and write-back stages -/

/-- `wr_data_rf_wb_ret` -/
def WbPipeReg.wrData (wb : WbPipeReg) : BitVec 32 :=
  wrDataRf wb.useLinkReg wb.nextSeqPc wb.rd wb.memToReg wb.readData wb.resAlu

/-- The ALU of the execute stage, from the forwarded operands. -/
def IssueOut.alu (x : IssueOut) (rDataP1 rDataP2 : BitVec 32) : AluOut :=
  Mips.alu rDataP1 (aluOperand2 x.aluSrc x.shamt x.signImm rDataP2) x.aluOp

/-- `branch_taken_ex` -/
def IssueOut.branchTaken (x : IssueOut) (a : AluOut) : Bool :=
  Mips.branchTaken x.branch x.op x.rt a.z a.n

/-- The inputs of `mem_pipe_reg`. -/
def IssueOut.toMem (x : IssueOut) (rDataP1 rDataP2 : BitVec 32) : MemPipeReg where
  valid := x.valid
  regWr := x.regWr
  memToReg := x.memToReg
  memWr := x.memWr
  rd := x.rd
  resAlu := (x.alu rDataP1 rDataP2).res
  rDataP2 := rDataP2
  nextSeqPc := x.nextSeqPc
  isLw := x.isLw
  useLinkReg := x.useLinkReg

/-- The inputs of `wb_pipe_reg`. -/
def MemPipeReg.toWb (m : MemPipeReg) (dmem : BitVec 32 → BitVec 32) : WbPipeReg where
  instrRetired := m.valid
  regWr := m.regWr
  memToReg := m.memToReg
  rd := m.rd
  resAlu := m.resAlu
  readData := dataMemRead dmem m.resAlu
  useLinkReg := m.useLinkReg
  nextSeqPc := m.nextSeqPc

namespace Top

variable (imem : BitVec 32 → BitVec 32) (reset : Bool) (s : Top)

/-- `r_data_p1_alu_ex_mem` -/
def rDataP1 : BitVec 32 :=
  let fwd := fwdSelect s.ex.rs s.mem.regWr s.mem.rd s.wb.regWr s.wb.rd
  if fwd.getLsbD 1 then
    if s.mem.isLw then dataMemRead s.dmem s.mem.resAlu else s.mem.resAlu
  else if fwd.getLsbD 0 then s.wb.wrData
  else s.ex.rDataP1

/-- `r_data_p2_ex_mem` -/
def rDataP2 : BitVec 32 :=
  let fwd := fwdSelect s.ex.rt s.mem.regWr s.mem.rd s.wb.regWr s.wb.rd
  if fwd.getLsbD 1 then s.mem.resAlu
  else if fwd.getLsbD 0 then s.wb.wrData
  else s.ex.rDataP2

/-- `branch_taken_ex` -/
def branchTaken : Bool := s.ex.branchTaken (s.ex.alu s.rDataP1 s.rDataP2)

/-- `brn_corr_pred_ex_mem` -/
def brnCorrPred : Bool :=
  (s.ex.brnPred == s.branchTaken) && (s.ex.nextBrnEqPc == s.ex.nextPredPc)

def forcePcUpdate : Bool := s.ex.branch && s.ex.brnPred && !s.brnCorrPred

def forcePcVal : BitVec 32 := if s.branchTaken then s.ex.nextBrnEqPc else s.ex.nextSeqPc

def flushIncorrPredIss : Bool := !s.ex.jump && (s.ex.brnPred && !s.brnCorrPred)

def flushIncorrPredEx : Bool := s.ex.brnPred && !s.brnCorrPred

/-- `flush_ex` of the hazard unit. -/
def flushEx : Bool := s.branchTaken && !s.brnCorrPred

/-- `flush_iss` of the hazard unit. -/
def flushIss : Bool := (s.branchTaken && !s.brnCorrPred) || (issueStage reset s.iss).jump

/-- `next_seq_pc_pc_reg_fetch` -/
def nextSeqPc : BitVec 32 := (adder s.currPc 0x4 false).sum

/-- `next_cal_pc_fetch_iss` -/
def nextCalPc : BitVec 32 :=
  if s.forcePcUpdate then s.forcePcVal
  else if s.branchTaken && !(s.ex.brnPred && s.brnCorrPred) then s.ex.nextBrnEqPc
  else if (issueStage reset s.iss).jump then nextJmpPc s.iss.nextPc s.iss.instr
  else s.nextSeqPc

/-- `next_pc_fetch_iss` -/
def nextPc : BitVec 32 :=
  if !s.ex.jump && !s.ex.branch && s.ex.brnPred && !s.brnCorrPred then s.ex.nextSeqPc
  else if !(issueStage reset s.iss).jump && !s.ex.branch && s.bpred.takeness s.currPc then
    s.bpred.targetAddr s.currPc
  else s.nextCalPc reset

/-- `reg_file` after the falling edge. -/
def regFileNext : BitVec 5 → BitVec 32 :=
  if s.wb.regWr || s.wb.useLinkReg then Function.update s.regFile s.wb.rd s.wb.wrData
  else s.regFile

/-- One clock of `top`. -/
def clock : Top where
  currPc := if reset then 0 else s.nextPc reset
  iss :=
    if reset || (s.flushIss reset || s.flushIncorrPredIss) then {}
    else
      { nextPc := s.nextSeqPc, instr := instrMemRead imem s.currPc
        brnPred := s.bpred.takeness s.currPc, currPc := s.currPc
        nextPredPc := s.bpred.targetAddr s.currPc }
  ex :=
    if reset || (s.flushEx || s.flushIncorrPredEx) then {}
    else
      { toIssueOut := issueStage reset s.iss
        rDataP1 := s.regFileNext (issueStage reset s.iss).rs
        rDataP2 := s.regFileNext (issueStage reset s.iss).rt
        brnPred := s.iss.brnPred
        nextPredPc := s.iss.nextPredPc }
  mem := if reset then {} else s.ex.toMem s.rDataP1 s.rDataP2
  wb := if reset then {} else s.mem.toWb s.dmem
  regFile := s.regFileNext
  dmem := dataMemWrite s.dmem s.mem.memWr s.mem.resAlu s.mem.rDataP2
  bpred := s.bpred.feedback s.ex.branch s.ex.currPc s.brnCorrPred s.ex.nextBrnEqPc
  tb := s.tb.clock s.currPc (instrMemRead imem s.currPc)

/-- The pipeline registers hold their reset values. -/
structure IsReset : Prop where
  currPc : s.currPc = 0
  iss : s.iss = {}
  ex : s.ex = {}
  mem : s.mem = {}
  wb : s.wb = {}

/-- `top` after `t` clocks with `reset` low. -/
def run : Nat → Top
  | 0 => s
  | t + 1 => (run t).clock imem false

/-- A clock with `reset` high leaves the reset values behind, whatever was there. -/
theorem isReset_clock : (s.clock imem true).IsReset where
  currPc := rfl
  iss := rfl
  ex := rfl
  mem := rfl
  wb := rfl

end Top

end SimpleCpu.Mips
