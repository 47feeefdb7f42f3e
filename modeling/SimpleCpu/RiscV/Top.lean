import SimpleCpu.RiscV.Alu
import SimpleCpu.RiscV.Decode
import SimpleCpu.Rtl.FrontEnd

/-!
# The RISC-V pipeline

`top` with its pipeline registers, hazard unit, branch predictor, register file and
memories.  A state is what the registers hold right after a rising edge.  One clock
first serves the falling edge, where the register file is written and then read, and
then the rising edge, where every other register takes its next value.

The names are the source's, without the suffixes that repeat the stage.  Unconnected
ports, and the outputs nothing reads, are left out.  An address outside an array
reads as zero where the source reads `x`: such a word decodes to no instruction.
-/

namespace SimpleCpu.RiscV

open SimpleCpu.Rtl

/-! ## Registers -/

/-- The inputs of `ex_pipe_reg` that depend on the issue register alone. -/
structure IssueOut where
  valid : Bool := false
  funct3 : BitVec 3 := 0
  op : BitVec 7 := 0
  rs1 : BitVec 5 := 0
  rs2 : BitVec 5 := 0
  rd : BitVec 5 := 0
  isRType : Bool := false
  isIType : Bool := false
  isSType : Bool := false
  isBType : Bool := false
  isUType : Bool := false
  isJType : Bool := false
  pcSel : BitVec 2 := 0
  op1Sel : Bool := false
  op2Sel : BitVec 2 := 0
  wbSel : BitVec 2 := 0
  pc4Sel : Bool := false
  memWr : Bool := false
  cprEn : Bool := false
  rfEn : Bool := false
  aluFun : BitVec 6 := 0
  nextSeqPc : BitVec 32 := 0
  currPc : BitVec 32 := 0
  nextBrnPc : BitVec 32 := 0
  sextImm : BitVec 32 := 0
  jump : Bool := false

/-- `ex_pipe_reg` -/
structure ExPipeReg extends IssueOut where
  nextPredPc : BitVec 32 := 0
  rDataP1 : BitVec 32 := 0
  rDataP2 : BitVec 32 := 0
  brnPred : Bool := false

/-- `mem_pipe_reg` -/
structure MemPipeReg where
  valid : Bool := false
  rfEn : Bool := false
  wbSel : BitVec 2 := 0
  memWr : Bool := false
  rd : BitVec 5 := 0
  aluRes : BitVec 32 := 0
  nextSeqPc : BitVec 32 := 0
  isLw : Bool := false
  rDataP2 : BitVec 32 := 0

/-- `wb_pipe_reg` -/
structure WbPipeReg where
  instrRetired : Bool := false
  rfEn : Bool := false
  wbSel : BitVec 2 := 0
  rd : BitVec 5 := 0
  aluRes : BitVec 32 := 0
  readData : BitVec 32 := 0
  nextSeqPc : BitVec 32 := 0

/-- Everything `top` and its testbench hold between two rising edges. -/
structure Top where
  currPc : BitVec 32
  iss : IssPipeReg
  ex : ExPipeReg
  mem : MemPipeReg
  wb : WbPipeReg
  regFile : BitVec 5 → BitVec 32
  dmem : BitVec 32 → BitVec 32
  bpred : Bpred
  tb : Testbench

/-! ## Memories -/

/-- Index of a word in `imem`. -/
def instrMemIndex (addr : BitVec 32) : BitVec 32 := ((addr - 0x2000) &&& 0xFFFFFFFC) >>> 2

/-- `instr_mem`, read port. -/
def instrMemRead (imem : BitVec 32 → BitVec 32) (addr : BitVec 32) : BitVec 32 :=
  if instrMemIndex addr < 2048 then imem (instrMemIndex addr) else 0

/-- Index of a word in `dmem`. -/
def dataMemIndex (addr : BitVec 32) : BitVec 32 := ((addr - 0x0) &&& ~~~0x3) >>> 2

/-- `data_mem`, read port. -/
def dataMemRead (dmem : BitVec 32 → BitVec 32) (addr : BitVec 32) : BitVec 32 :=
  if dataMemIndex addr ≤ 0x1FFF then dmem (dataMemIndex addr) else 0

/-- `data_mem`, write port, with all four strobes set. -/
def dataMemWrite (dmem : BitVec 32 → BitVec 32) (wrEn : Bool) (addr wrData : BitVec 32) :
    BitVec 32 → BitVec 32 :=
  let wrStrb := 0xFFFFFFFF#32
  if wrEn ∧ dataMemIndex addr ≤ 0x1FFF then
    Function.update dmem (dataMemIndex addr)
      ((wrData &&& wrStrb) ||| (~~~wrStrb &&& dataMemRead dmem addr))
  else dmem

/-! ## Issue stage -/

/-- `instr_imm_12bit_iss` -/
def Decode.instrImm12bit (d : Decode) : BitVec 12 :=
  ((if d.isIType then d.iTypeImm else 0) ||| (if d.isSType then d.sTypeImm else 0)) |||
    (if d.isBType then d.bTypeImm else 0)

/-- `instr_imm_20bit_iss` -/
def Decode.instrImm20bit (d : Decode) : BitVec 20 :=
  (if d.isUType then d.uTypeImm else 0) ||| (if d.isJType then d.jTypeImm else 0)

/-- `sign_extnd_imm_iss_ex` -/
def Decode.signExtndImm (d : Decode) : BitVec 32 :=
  if d.isJType then signExtnd20bit d.instrImm20bit
  else if d.isUType then d.instrImm20bit ++ 0#12
  else signExtnd12bit d.instrImm12bit d.op

/-- `jalr_iss_ex` -/
def Decode.jalr (d : Decode) : Bool := d.isIType && (d.op[0] && d.op[1] && d.op[2])

/-- The issue stage, from the issue register to the inputs of `ex_pipe_reg`. -/
def issueStage (reset : Bool) (iss : IssPipeReg) : IssueOut :=
  let d := decode iss.instr
  let c := control d.funct3 d.funct7 d.op d.isRType d.isIType d.isSType d.isBType
    d.isUType d.isJType
  { valid := (d.isRType || d.isIType || d.isSType || d.isBType || d.isUType ||
      d.isJType) && !reset
    funct3 := d.funct3, op := d.op, rs1 := d.rs1, rs2 := d.rs2, rd := d.rd
    isRType := d.isRType, isIType := d.isIType, isSType := d.isSType
    isBType := d.isBType, isUType := d.isUType, isJType := d.isJType
    pcSel := c.pcSel, op1Sel := c.op1Sel, op2Sel := c.op2Sel, wbSel := c.wbSel
    pc4Sel := c.pc4Sel, memWr := c.memWr, cprEn := c.cprEn, rfEn := c.rfEn
    aluFun := c.aluFun
    nextSeqPc := iss.nextPc
    currPc := iss.currPc
    nextBrnPc := (adder iss.currPc d.signExtndImm false).sum
    sextImm := d.signExtndImm
    jump := d.isJType || d.jalr }

/-- `next_jmp_pc_iss_ex`.  The net `next_jalr_pc_iss_ex` is not declared, so it is one
bit wide. -/
def nextJmpPc (iss : IssPipeReg) : BitVec 32 :=
  let d := decode iss.instr
  let nextJalrPc :=
    (d.rs1.setWidth 32 + signExtnd12bit d.instrImm12bit d.op) &&& 0xFFFFFFFE
  if d.jalr then (nextJalrPc.extractLsb' 0 1).setWidth 32
  else (adder iss.currPc d.signExtndImm false).sum

/-! ## Execute, memory and write-back stages -/

/-- `wr_data_rf_wb_ret` -/
def WbPipeReg.wrData (wb : WbPipeReg) : BitVec 32 :=
  if wb.rd ≠ 0 then
    if wb.wbSel.getLsbD 0 then wb.aluRes
    else if wb.wbSel.getLsbD 1 then wb.nextSeqPc
    else wb.readData
  else 0

/-- `r_data_p1_alu_ex_mem`, from the forwarded operand. -/
def IssueOut.aluOp1 (x : IssueOut) (rDataP1 : BitVec 32) : BitVec 32 :=
  if x.op1Sel then x.sextImm else rDataP1

/-- `r_data_p2_alu_ex_mem`, from the forwarded operand. -/
def IssueOut.aluOp2 (x : IssueOut) (rDataP2 : BitVec 32) : BitVec 32 :=
  if x.op2Sel.getLsbD 1 && x.op2Sel.getLsbD 0 then rDataP2
  else if x.op2Sel.getLsbD 0 then x.sextImm
  else if x.op2Sel.getLsbD 1 then x.currPc
  else 0

/-- The ALU of the execute stage. -/
def IssueOut.alu (x : IssueOut) (rDataP1 rDataP2 : BitVec 32) : AluOut :=
  RiscV.alu (x.aluOp1 rDataP1) (x.aluOp2 rDataP2) x.aluFun

/-- `branch_taken_ex`, by `funct3`: `BEQ` 0, `BNE` 1, `BLT` 4, `BGE` 5, `BLTU` 6,
`BGEU` 7. -/
def IssueOut.branchTaken (x : IssueOut) (a : AluOut) : Bool :=
  (x.isBType && x.funct3 == 0 && a.z) ||
    (x.isBType && (x.funct3 == 4 || x.funct3 == 6) && a.n) ||
    (x.isBType && x.funct3 == 1 && !a.z) ||
    (x.isBType && (x.funct3 == 5 || x.funct3 == 7) && (!a.n || a.z))

/-- The inputs of `mem_pipe_reg`. -/
def IssueOut.toMem (x : IssueOut) (rDataP1 rDataP2 : BitVec 32) : MemPipeReg where
  valid := x.valid
  rfEn := x.rfEn
  wbSel := x.wbSel
  memWr := x.memWr
  rd := x.rd
  aluRes := (x.alu rDataP1 rDataP2).res
  nextSeqPc := x.nextSeqPc
  isLw := x.isIType && I_TYPE_0 == x.op
  rDataP2 := rDataP2

/-- The inputs of `wb_pipe_reg`. -/
def MemPipeReg.toWb (m : MemPipeReg) (dmem : BitVec 32 → BitVec 32) : WbPipeReg where
  instrRetired := m.valid
  rfEn := m.rfEn
  wbSel := m.wbSel
  rd := m.rd
  aluRes := m.aluRes
  readData := dataMemRead dmem m.aluRes
  nextSeqPc := m.nextSeqPc

namespace Top

variable (imem : BitVec 32 → BitVec 32) (reset : Bool) (s : Top)

/-- `r_data_p1_ex_mem` -/
def rDataP1 : BitVec 32 :=
  let fwd := fwdSelect s.ex.rs1 s.mem.rfEn s.mem.rd s.wb.rfEn s.wb.rd
  if fwd.getLsbD 1 then
    if s.mem.isLw then dataMemRead s.dmem s.mem.aluRes else s.mem.aluRes
  else if fwd.getLsbD 0 then s.wb.wrData
  else s.ex.rDataP1

/-- `r_data_p2_ex_mem` -/
def rDataP2 : BitVec 32 :=
  let fwd := fwdSelect s.ex.rs2 s.mem.rfEn s.mem.rd s.wb.rfEn s.wb.rd
  if fwd.getLsbD 1 then s.mem.aluRes
  else if fwd.getLsbD 0 then s.wb.wrData
  else s.ex.rDataP2

/-- `branch_taken_ex` -/
def branchTaken : Bool := s.ex.branchTaken (s.ex.alu s.rDataP1 s.rDataP2)

/-- `brn_corr_pred_ex_mem` -/
def brnCorrPred : Bool :=
  (s.ex.brnPred == s.branchTaken) && (s.ex.nextBrnPc == s.ex.nextPredPc)

def forcePcUpdate : Bool := s.ex.isBType && s.ex.brnPred && !s.brnCorrPred

def forcePcVal : BitVec 32 := if s.branchTaken then s.ex.nextBrnPc else s.ex.nextSeqPc

def flushIncorrPredIss : Bool := !s.ex.jump && (s.ex.brnPred && !s.brnCorrPred)

def flushIncorrPredEx : Bool := s.ex.brnPred && !s.brnCorrPred

/-- `flush_ex` of the hazard unit. -/
def flushEx : Bool := s.branchTaken && !s.brnCorrPred

/-- `flush_iss` of the hazard unit. -/
def flushIss : Bool := (s.branchTaken && !s.brnCorrPred) || (issueStage reset s.iss).jump

/-- `next_seq_pc_pc_reg_fetch` -/
def nextSeqPc : BitVec 32 := (adder s.currPc 0x4 false).sum

/-- `next_cal_pc_fetch_iss` -/
def nextCalPc : BitVec 32 :=
  if s.forcePcUpdate then s.forcePcVal
  else if s.branchTaken && !(s.ex.brnPred && s.brnCorrPred) then s.ex.nextBrnPc
  else if (issueStage reset s.iss).jump then nextJmpPc s.iss
  else s.nextSeqPc

/-- `next_pc_fetch_iss` -/
def nextPc : BitVec 32 :=
  if !s.ex.jump && !s.ex.isBType && s.ex.brnPred && !s.brnCorrPred then s.ex.nextSeqPc
  else if !(issueStage reset s.iss).jump && !s.ex.isBType && s.bpred.takeness s.currPc then
    s.bpred.targetAddr s.currPc
  else s.nextCalPc reset

/-- `regfile` after the falling edge. -/
def regFileNext : BitVec 5 → BitVec 32 :=
  if s.wb.rfEn then Function.update s.regFile s.wb.rd s.wb.wrData else s.regFile

/-- One clock of `top`. -/
def clock : Top where
  currPc := if reset then 0x2000 else s.nextPc reset
  iss :=
    if reset || (s.flushIss reset || s.flushIncorrPredIss) then {}
    else
      { nextPc := s.nextSeqPc, instr := instrMemRead imem s.currPc
        brnPred := s.bpred.takeness s.currPc, currPc := s.currPc
        nextPredPc := s.bpred.targetAddr s.currPc }
  ex :=
    if reset || (s.flushEx || s.flushIncorrPredEx) then {}
    else
      { toIssueOut := issueStage reset s.iss
        nextPredPc := s.iss.nextPredPc
        rDataP1 := s.regFileNext (issueStage reset s.iss).rs1
        rDataP2 := s.regFileNext (issueStage reset s.iss).rs2
        brnPred := s.iss.brnPred }
  mem := if reset then {} else s.ex.toMem s.rDataP1 s.rDataP2
  wb := if reset then {} else s.mem.toWb s.dmem
  regFile := s.regFileNext
  dmem := dataMemWrite s.dmem s.mem.memWr s.mem.aluRes s.mem.rDataP2
  bpred := s.bpred.feedback s.ex.isBType s.ex.currPc s.brnCorrPred s.ex.nextBrnPc
  tb := s.tb.clock s.currPc (instrMemRead imem s.currPc)

/-- The pipeline registers hold their reset values. -/
structure IsReset : Prop where
  currPc : s.currPc = 0x2000
  iss : s.iss = {}
  ex : s.ex = {}
  mem : s.mem = {}
  wb : s.wb = {}

/-- `top` after `t` clocks with `reset` low. -/
def run : Nat → Top
  | 0 => s
  | t + 1 => (run t).clock imem false

/-- A clock with `reset` high leaves the reset values behind, whatever was there. -/
theorem isReset_clock : (s.clock imem true).IsReset where
  currPc := rfl
  iss := rfl
  ex := rfl
  mem := rfl
  wb := rfl

end Top

/-- `top` after reset with all registers and tables at zero. -/
def Top.cleared (dmem : Word → Word) : Top where
  currPc := 0x2000
  iss := {}
  ex := {}
  mem := {}
  wb := {}
  regFile := fun _ => 0
  dmem := dmem
  bpred := { bpred := fun _ => 0, btb := fun _ => 0 }
  tb := {}

end SimpleCpu.RiscV
