import SimpleCpu.Mips.Memory

/-!
# The pipeline from the textbook

`Top` of `mips-pipeline_from_textbook`: five stages without forwarding or prediction.
An instruction waits in ID while an older one is to write a register it names, and fetch
waits while a branch or a jump is in ID, EX or MEM.

A state is what the registers hold right after a rising edge.  Combinational blocks that
leave an output unassigned keep its value; these values are part of the state
(`Latches` and `readData`).  A control output that the source sets to `x` counts as
false, and an `ALUOp` of `x` selects nothing.
-/

namespace SimpleCpu.Mips.Textbook

/-! ## Combinational blocks -/

/-- Outputs of `controlUnit`. -/
structure Control where
  aluOp : Option (BitVec 3)
  regDest : Bool := false
  regWrite : Bool := false
  aluSrc : Bool := false
  memRead : Bool := false
  memWrite : Bool := false
  memToReg : Bool := false
  branch : Bool := false
  invertZero : Bool := false
  jump : Bool := false
  isIType : Bool := false
  isRType : Bool := false
  isJType : Bool := false
  deriving DecidableEq, Repr

/-- `controlUnit`.  `SYSCALL` leaves `ALUOp` as it was. -/
def controlUnit (aluOpHeld : Option (BitVec 3)) (opcode funct : BitVec 6) (ir : BitVec 32) :
    Control :=
  if ir = 0 then { aluOp := some 0b000 }
  else if opcode = 0b000000 then
    if funct = 0b001100 then { aluOp := aluOpHeld }
    else { aluOp := some 0b010, regDest := true, regWrite := true, isRType := true }
  else if opcode = 0b100011 then
    { aluOp := some 0b000, regWrite := true, aluSrc := true, memRead := true
      memToReg := true, isIType := true }
  else if opcode = 0b101011 then
    { aluOp := some 0b000, aluSrc := true, memWrite := true, isIType := true }
  else if opcode = 0b000010 then { aluOp := none, jump := true, isJType := true }
  else if opcode = 0b000100 then { aluOp := some 0b001, branch := true, isIType := true }
  else if opcode = 0b000101 then
    { aluOp := some 0b001, branch := true, invertZero := true, isIType := true }
  else if opcode = 0b001000 then
    { aluOp := some 0b000, regWrite := true, aluSrc := true, isIType := true }
  else if opcode = 0b001010 then
    { aluOp := some 0b111, regWrite := true, aluSrc := true, isIType := true }
  else if opcode = 0b001100 then
    { aluOp := some 0b011, regWrite := true, aluSrc := true, isIType := true }
  else if opcode = 0b001101 then
    { aluOp := some 0b100, regWrite := true, aluSrc := true, isIType := true }
  else { aluOp := none }

/-- `ALUcontrol` -/
def aluControl (held : BitVec 4) (funct : BitVec 6) (aluOp : Option (BitVec 3)) : BitVec 4 :=
  if aluOp = some 0b010 then
    if funct = 0b100000 then 0b0000
    else if funct = 0b100010 then 0b0001
    else if funct = 0b100100 then 0b0010
    else if funct = 0b100101 then 0b0011
    else if funct = 0b101010 then 0b0101
    else held
  else if aluOp = some 0b001 then 0b0001
  else if aluOp = some 0b000 then 0b0000
  else if aluOp = some 0b011 then 0b0010
  else if aluOp = some 0b100 then 0b0011
  else if aluOp = some 0b111 then 0b0101
  else held

/-- `signExt` -/
def signExt (held : BitVec 32) (inData : BitVec 16) (aluCtrl : BitVec 4) (branch : Bool) :
    BitVec 32 :=
  if aluCtrl = 0b0000 ∨ aluCtrl = 0b0101 ∨ branch then inData.signExtend 32
  else if aluCtrl = 0b0010 ∨ aluCtrl = 0b0011 then inData.setWidth 32
  else held

/-- `result` of `ALU`. -/
def alu (data1 data2 : BitVec 32) (aluOperation : BitVec 4) : BitVec 32 :=
  if aluOperation = 0b0000 then data1 + data2
  else if aluOperation = 0b0001 then data1 - data2
  else if aluOperation = 0b0010 then data1 &&& data2
  else if aluOperation = 0b0011 then data1 ||| data2
  else if aluOperation = 0b0100 then data1 ^^^ data2
  else if aluOperation = 0b0101 then
    if data1[31] && !data2[31] then 1
    else if !data1[31] && data2[31] then 0
    else if data1 < data2 then 1 else 0
  else data1 + data2

/-! ## Registers -/

/-- `IFID` -/
structure IfId where
  instr : BitVec 32 := 0
  nextPc : BitVec 32 := 0

/-- `IDEX` -/
structure IdEx where
  instr : BitVec 32 := 0
  regWrite : Bool := false
  aluSrc : Bool := false
  memRead : Bool := false
  memWrite : Bool := false
  memToReg : Bool := false
  branch : Bool := false
  invertZero : Bool := false
  jump : Bool := false
  aluCtrl : BitVec 4 := 0
  a : BitVec 32 := 0
  b : BitVec 32 := 0
  writeReg : BitVec 5 := 0
  outSignExt : BitVec 32 := 0
  pc : BitVec 32 := 0
  npc1 : BitVec 32 := 0
  valid : Bool := false

/-- `EXMEM` -/
structure ExMem where
  instr : BitVec 32 := 0
  regWrite : Bool := false
  memRead : Bool := false
  memWrite : Bool := false
  memToReg : Bool := false
  branch : Bool := false
  invertZero : Bool := false
  jump : Bool := false
  b : BitVec 32 := 0
  result : BitVec 32 := 0
  zero : Bool := false
  nextPcBranch : BitVec 32 := 0
  npc1 : BitVec 32 := 0
  pc : BitVec 32 := 0
  writeReg : BitVec 5 := 0
  valid : Bool := false

/-- `MEMWB` -/
structure MemWb where
  instr : BitVec 32 := 0
  regWrite : Bool := false
  memToReg : Bool := false
  outputData : BitVec 32 := 0
  aluResult : BitVec 32 := 0
  writeReg : BitVec 5 := 0
  valid : Bool := false

/-- `DFF`: the type flags that run beside the pipeline registers. -/
structure Types where
  isIType : Bool
  isRType : Bool
  isJType : Bool

/-- Outputs of ID that keep their values. -/
structure Latches where
  aluOp : Option (BitVec 3)
  aluCtrl : BitVec 4
  outSignExt : BitVec 32

structure Top where
  pc : BitVec 32
  ifId : IfId
  idEx : IdEx
  exMem : ExMem
  memWb : MemWb
  exeTypes : Types
  memTypes : Types
  wbTypes : Types
  latches : Latches
  regFile : BitVec 5 → BitVec 32
  memArray : BitVec 7 → BitVec 32
  readData : BitVec 32
  pcId : BitVec 32
  pcEx : BitVec 32
  pcMem : BitVec 32
  pcWb : BitVec 32

/-! ## Stages -/

/-- `IMemBank` -/
def iMemBank (imem : BitVec 32 → BitVec 32) (address : BitVec 32) : BitVec 32 :=
  instrMemReadAt 2048 imem address

/-- What EX and MEM do with an instruction. -/
def IdEx.toMem (r : IdEx) : ExMem :=
  let result := alu r.a (if r.aluSrc then r.outSignExt else r.b) r.aluCtrl
  { instr := r.instr
    regWrite := r.regWrite
    memRead := r.memRead
    memWrite := r.memWrite
    memToReg := r.memToReg
    branch := r.branch
    invertZero := r.invertZero
    jump := r.jump
    b := r.b
    result := result
    zero := result == 0
    nextPcBranch := r.pc + (r.outSignExt <<< 2)
    npc1 := r.npc1
    pc := r.pc
    writeReg := r.writeReg
    valid := r.valid }

def ExMem.toWb (r : ExMem) (outputData : BitVec 32) : MemWb where
  instr := r.instr
  regWrite := r.regWrite
  memToReg := r.memToReg
  outputData := outputData
  aluResult := r.result
  writeReg := r.writeReg
  valid := r.valid

def ExMem.branchEnable (r : ExMem) : Bool :=
  if r.invertZero then !(r.zero && r.branch) else r.zero && r.branch

/-- `NPCValue` -/
def ExMem.npcValue (r : ExMem) : BitVec 32 :=
  if r.jump then r.npc1 else if r.branchEnable then r.nextPcBranch else r.pc

/-- `WBData` -/
def MemWb.wbData (r : MemWb) : BitVec 32 := if r.memToReg then r.outputData else r.aluResult

/-! ## Stalls -/

/-- An older instruction is to write the `rs` or the `rt` of the one in ID: the
destination is read off the word, at a position that depends on the type. -/
def dependsOn (ird : BitVec 32) (ir : BitVec 32) (types : Types) : Bool :=
  let names (r : BitVec 5) : Bool :=
    ir != 0 && (ird.extractLsb' 21 5 == r || ird.extractLsb' 16 5 == r)
  (names (ir.extractLsb' 11 5) && types.isRType) ||
    (names (ir.extractLsb' 16 5) && types.isIType)

/-- `Controlstall`, for one of the three words. -/
def isControl (op : BitVec 6) : Bool := op == 0b000100 || op == 0b000101 || op == 0b000010

namespace Top

variable (imem : BitVec 32 → BitVec 32) (reset : Bool) (s : Top)

/-- Outputs of `controlUnit`. -/
def control : Control :=
  controlUnit s.latches.aluOp (s.ifId.instr.extractLsb' 26 6) (s.ifId.instr.extractLsb' 0 6)
    s.ifId.instr

def aluCtrl : BitVec 4 :=
  aluControl s.latches.aluCtrl (s.ifId.instr.extractLsb' 0 6) s.control.aluOp

def outSignExt : BitVec 32 :=
  signExt s.latches.outSignExt (s.ifId.instr.extractLsb' 0 16) s.aluCtrl s.control.branch

/-- `stallUnit`.  A stall is signalled by zero. -/
def dataStall : Bool :=
  reset || !((s.control.isIType || s.control.isRType) &&
    (dependsOn s.ifId.instr s.idEx.instr s.exeTypes ||
      dependsOn s.ifId.instr s.exMem.instr s.memTypes ||
      dependsOn s.ifId.instr s.memWb.instr s.wbTypes))

/-- `Controlstall`.  A stall is signalled by zero. -/
def controlStall : Bool :=
  reset || !(isControl (s.ifId.instr.extractLsb' 26 6) ||
    isControl (s.idEx.instr.extractLsb' 26 6) || isControl (s.exMem.instr.extractLsb' 26 6))

/-- What ID passes to EX. -/
def issued : IdEx where
  instr := s.ifId.instr
  regWrite := s.control.regWrite
  aluSrc := s.control.aluSrc
  memRead := s.control.memRead
  memWrite := s.control.memWrite
  memToReg := s.control.memToReg
  branch := s.control.branch
  invertZero := s.control.invertZero
  jump := s.control.jump
  aluCtrl := s.aluCtrl
  a := s.regFile (s.ifId.instr.extractLsb' 21 5)
  b := s.regFile (s.ifId.instr.extractLsb' 16 5)
  writeReg :=
    if s.control.regDest then s.ifId.instr.extractLsb' 11 5 else s.ifId.instr.extractLsb' 16 5
  outSignExt := s.outSignExt
  pc := s.ifId.nextPc
  npc1 := s.ifId.nextPc.extractLsb' 28 4 ++ (s.ifId.instr.extractLsb' 0 26 ++ 0#2)
  valid := (s.control.isRType || s.control.isIType || s.control.isJType) && !reset

/-- `readdata` of `DMemBank`. -/
def outputData : BitVec 32 :=
  if s.exMem.memRead then s.memArray (s.exMem.result.extractLsb' 0 7) else s.readData

/-- `RegFile`.  The write is nonblocking, so it comes after register 0 is cleared. -/
def regFileNext : BitVec 5 → BitVec 32 :=
  let cleared := Function.update s.regFile 0 0
  if s.memWb.regWrite then Function.update cleared s.memWb.writeReg s.memWb.wbData else cleared

/-- `PCRegWrite` -/
def nextPc : BitVec 32 :=
  if s.exMem.branchEnable || s.exMem.jump then s.exMem.npcValue
  else if !(s.dataStall reset && s.controlStall reset) then s.pc
  else 4 + s.pc

/-- One clock of `Top`. -/
def clock : Top where
  pc := if reset then 0 else s.nextPc reset
  ifId :=
    if reset then {}
    else if !s.dataStall reset then s.ifId
    else if !s.controlStall reset then {}
    else { instr := iMemBank imem s.pc, nextPc := 4 + s.pc }
  idEx := if reset || !s.dataStall reset then {} else s.issued reset
  exMem := if reset then {} else s.idEx.toMem
  memWb := if reset then {} else s.exMem.toWb s.outputData
  exeTypes :=
    { isIType := s.control.isIType, isRType := s.control.isRType
      isJType := s.control.isJType }
  memTypes := s.exeTypes
  wbTypes := s.memTypes
  latches := { aluOp := s.control.aluOp, aluCtrl := s.aluCtrl, outSignExt := s.outSignExt }
  regFile := s.regFileNext
  memArray :=
    if s.exMem.memWrite then
      Function.update s.memArray (s.exMem.result.extractLsb' 0 7) s.exMem.b
    else s.memArray
  readData := s.outputData
  pcId :=
    if !s.dataStall reset then s.pcId
    else if !s.controlStall reset then 1
    else s.pc
  pcEx := if s.dataStall reset then s.pcId else 1
  pcMem := s.pcEx
  pcWb := s.pcMem

/-- `Top` after `t` clocks with `reset` low. -/
def run : Nat → Top
  | 0 => s
  | t + 1 => (run t).clock imem false

/-- The pipeline registers hold their reset values. -/
structure IsReset : Prop where
  pc : s.pc = 0
  ifId : s.ifId = {}
  idEx : s.idEx = {}
  exMem : s.exMem = {}
  memWb : s.memWb = {}

/-- A clock with `reset` high leaves the reset values behind, whatever was there. -/
theorem isReset_clock : (s.clock imem true).IsReset where
  pc := rfl
  ifId := rfl
  idEx := rfl
  exMem := rfl
  memWb := rfl

end Top

/-- `Top` right after reset, with all registers at zero. -/
def Top.cleared : Top where
  pc := 0
  ifId := {}
  idEx := {}
  exMem := {}
  memWb := {}
  exeTypes := { isIType := false, isRType := false, isJType := false }
  memTypes := { isIType := false, isRType := false, isJType := false }
  wbTypes := { isIType := false, isRType := false, isJType := false }
  latches := { aluOp := none, aluCtrl := 0, outSignExt := 0 }
  regFile := fun _ => 0
  memArray := fun _ => 0
  readData := 0
  pcId := 0
  pcEx := 0
  pcMem := 0
  pcWb := 0

end SimpleCpu.Mips.Textbook
