import SimpleCpu.Iss.Constants
import SimpleCpu.Iss.Memory

/-!
# The RISC-V instruction-set simulator

`sim.c` and the parts of `main.c` that run it.  A `decode` function takes the fields
of a word apart and hands them to its `execute` function, which reads
`CURRENT_STATE`, assigns to `NEXT_STATE` and, for stores, writes memory at once.  An
encoding that no case of a `switch` handles leaves `NEXT_STATE` as it was.

The messages printed on the way are left out.
-/

namespace SimpleCpu.RiscV.Iss

open SimpleCpu.Iss

/-! ## State -/

/-- `CPU_State`. -/
structure CpuState where
  pc : BitVec 32
  regs : BitVec 5 → BitVec 32

/-- `REGS[i]`, for an index that has been masked to five bits. -/
def CpuState.reg (s : CpuState) (i : BitVec 32) : BitVec 32 := s.regs (i.setWidth 5)

/-- `REGS[i] = value`. -/
def CpuState.setReg (s : CpuState) (i value : BitVec 32) : CpuState :=
  { s with regs := Function.update s.regs (i.setWidth 5) value }

def CpuState.setPc (s : CpuState) (pc : BitVec 32) : CpuState := { s with pc := pc }

/-- `MEM_REGIONS`: text, data, stack, kernel data, kernel text. -/
def memRegions : List MemRegion :=
  [{ start := 0x00002000, size := 0x00001FFF },
   { start := 0x00000000, size := 0x00001FFF },
   { start := 0x7ff00000, size := 0x00100000 },
   { start := 0x90000000, size := 0x00100000 },
   { start := 0x80000000, size := 0x00100000 }]

/-- The simulator's global state. -/
structure Sim where
  current : CpuState
  next : CpuState
  mem : Memory
  runBit : Bool
  instrOpcode : BitVec 32

/-- `mem_read_32` -/
def Sim.memRead (s : Sim) (address : BitVec 32) : BitVec 32 :=
  memRead32 memRegions s.mem address

/-- `mem_write_32` -/
def Sim.memWrite (s : Sim) (address value : BitVec 32) : Sim :=
  { s with mem := memWrite32 memRegions s.mem address value }

/-- An assignment to `NEXT_STATE`. -/
def Sim.assign (s : Sim) (f : CpuState → CpuState) : Sim := { s with next := f s.next }

/-! ## Constants -/

inductive InstrType where
  | r | i | s | b | u | j
  deriving DecidableEq, Repr

/-! `riscv_instr_defines.h` -/

def ADD : BitVec 32 := 0x0
def ADDI : BitVec 32 := 0x10
def AND : BitVec 32 := 0x7
def ANDI : BitVec 32 := 0x1c
def BEQ : BitVec 32 := 0x0
def BNE : BitVec 32 := 0x1
def BLT : BitVec 32 := 0x4
def BGE : BitVec 32 := 0x5
def BLTU : BitVec 32 := 0x6
def BGEU : BitVec 32 := 0x7
def JALR : BitVec 32 := 0x7
def LB : BitVec 32 := 0x0
def LBU : BitVec 32 := 0x4
def LH : BitVec 32 := 0x1
def LHU : BitVec 32 := 0x5
def LW : BitVec 32 := 0x2
def AUIPC : BitVec 32 := 0x27
def LUI : BitVec 32 := 0x37
def OR : BitVec 32 := 0x6
def ORI : BitVec 32 := 0x16
def SB : BitVec 32 := 0x0
def SH : BitVec 32 := 0x1
def SW : BitVec 32 := 0x2
def SLL : BitVec 32 := 0x1
def SLT : BitVec 32 := 0x2
def SLTI : BitVec 32 := 0x12
def SLTIU : BitVec 32 := 0x13
def SLTU : BitVec 32 := 0x3
def SRA : BitVec 32 := 0xd
def SRL : BitVec 32 := 0x5
def SUB : BitVec 32 := 0x8
def XOR : BitVec 32 := 0x4
def XORI : BitVec 32 := 0x14

/-! ## Formats -/

/-- `decode_instr_type`; `none` is the type `-1`. -/
def decodeInstrType (instrOpcode : BitVec 32) : Option InstrType :=
  if instrOpcode &&& 0x7F = 0x33 then some .r
  else if instrOpcode &&& 0x7F = 0x13 ∨ instrOpcode &&& 0x7F = 0x03 then some .i
  else if instrOpcode &&& 0x7F = 0x23 then some .s
  else if instrOpcode &&& 0x7F = 0x63 then some .b
  else if instrOpcode &&& 0x7F = AUIPC ∨ instrOpcode &&& 0x7F = LUI then some .u
  else if instrOpcode &&& 0x7F = 0x6F then some .j
  else none

/-- `execute_r` -/
def executeR (s : Sim) (rs1 rs2 rd funct7 funct3 : BitVec 32) : Sim :=
  let cur := s.current
  let funct := ((funct7 >>> 5 &&& 0x1) <<< 3) ||| funct3
  let write (value : BitVec 32) := s.assign fun n => (n.setReg rd value).setPc (cur.pc + 4)
  if rd = 0 then s.assign (·.setPc (cur.pc + 4))
  else if funct = SLL then write (cur.reg rs1 <<< (cur.reg rs2 &&& 0x1F))
  else if funct = SRL then write (cur.reg rs1 >>> (cur.reg rs2 &&& 0x1F))
  else if funct = SRA then
    let sign := cur.reg rs1 >>> 31
    let shiftVal := shiftConst (cur.reg rs2 &&& 0x1F)
    let res := cur.reg rs1 >>> (cur.reg rs2 &&& 0x1F)
    write (if sign = 1 then res ||| shiftVal else res)
  else if funct = ADD then write (cur.reg rs1 + cur.reg rs2)
  else if funct = SUB then write (cur.reg rs1 - cur.reg rs2)
  else if funct = AND then write (cur.reg rs1 &&& cur.reg rs2)
  else if funct = OR then write (cur.reg rs1 ||| cur.reg rs2)
  else if funct = XOR then write (cur.reg rs1 ^^^ cur.reg rs2)
  else if funct = SLT then write (ofBool ((cur.reg rs1).slt (cur.reg rs2)))
  else if funct = SLTU then write (ofBool ((cur.reg rs1).ult (cur.reg rs2)))
  else s

def decodeR (s : Sim) (instrOpcode : BitVec 32) : Sim :=
  let rs1 := instrOpcode >>> 15 &&& 0x1F
  let rs2 := instrOpcode >>> 20 &&& 0x1F
  let rd := instrOpcode >>> 7 &&& 0x1F
  let funct3 := instrOpcode >>> 12 &&& 0x07
  let funct7 := instrOpcode >>> 25 &&& 0x7F
  executeR s rs1 rs2 rd funct7 funct3

/-- `execute_i`.  `LH` extends its sign with the `shift_val` of the immediate. -/
def executeI (s : Sim) (funct3 opcode rs1 rd imm : BitVec 32) : Sim :=
  let cur := s.current
  let funct := ((opcode >>> 4 &&& 0x1) <<< 4) ||| funct3
  let shiftVal := shiftConst 20
  let imm := extend 11 20 imm
  let address := cur.reg rs1 + imm
  let write (value : BitVec 32) :=
    if rd = 0 then s.assign (·.setPc (cur.pc + 4))
    else s.assign fun n => (n.setReg rd value).setPc (cur.pc + 4)
  if funct = ADDI then write (cur.reg rs1 + imm)
  else if funct = SLTI then write (ofBool ((cur.reg rs1).slt imm))
  else if funct = SLTIU then write (ofBool ((cur.reg rs1).ult imm))
  else if funct = ANDI then write (cur.reg rs1 &&& imm)
  else if funct = ORI then write (cur.reg rs1 ||| imm)
  else if funct = XORI then write (cur.reg rs1 ^^^ imm)
  else if funct = JALR then
    let s := s.assign (·.setPc (cur.reg rs1 + imm))
    if rd ≠ 0 then s.assign (·.setReg rd (cur.pc + 4)) else s
  else if funct = LB then
    let memContent := s.memRead address &&& 0xFF
    write (if memContent >>> 7 ≠ 0 then memContent ||| shiftConst 24 else memContent)
  else if funct = LH then
    let memContent := s.memRead address &&& 0xFFFF
    write (if memContent >>> 15 ≠ 0 then memContent ||| shiftVal else memContent)
  else if funct = LW then write (s.memRead address)
  else if funct = LBU then write (s.memRead address &&& 0xFF)
  else if funct = LHU then write (s.memRead address &&& 0xFFFF)
  else s

def decodeI (s : Sim) (instrOpcode : BitVec 32) : Sim :=
  let funct3 := instrOpcode >>> 12 &&& 0x07
  let opcode := instrOpcode &&& 0x7F
  let rs1 := instrOpcode >>> 15 &&& 0x1F
  let rd := instrOpcode >>> 7 &&& 0x1F
  let imm := instrOpcode >>> 20 &&& 0xFFF
  executeI s funct3 opcode rs1 rd imm

/-- `execute_s`.  The base is `rs2` and the data `rs1`; only `SW` aligns. -/
def executeS (s : Sim) (funct3 rs1 rs2 imm : BitVec 32) : Sim :=
  let cur := s.current
  if funct3 = SB then
    let imm := extend 11 12 imm
    (s.memWrite (cur.reg rs2 + imm) (cur.reg rs1 &&& 0xFF)).assign (·.setPc (cur.pc + 4))
  else if funct3 = SH then
    let imm := extend 15 16 imm
    (s.memWrite (cur.reg rs2 + imm) (cur.reg rs1 &&& 0xFFFF)).assign
      (·.setPc (cur.pc + 4))
  else if funct3 = SW then
    let imm := extend 15 16 imm
    (s.memWrite ((cur.reg rs2 + imm) &&& 0xFFFFFFFC) (cur.reg rs1)).assign
      (·.setPc (cur.pc + 4))
  else s

def decodeS (s : Sim) (instrOpcode : BitVec 32) : Sim :=
  let funct3 := instrOpcode >>> 12 &&& 0x07
  let rs1 := instrOpcode >>> 15 &&& 0x1F
  let rs2 := instrOpcode >>> 20 &&& 0x1F
  let imm := ((instrOpcode >>> 25 &&& 0x7F) <<< 5) ||| (instrOpcode >>> 7 &&& 0x1F)
  executeS s funct3 rs1 rs2 imm

/-- `execute_b` -/
def executeB (s : Sim) (funct3 rs1 rs2 imm : BitVec 32) : Sim :=
  let cur := s.current
  let branch (taken : Bool) := s.assign (·.setPc
    (if taken then cur.pc + extend 12 19 imm else cur.pc + 4))
  if funct3 = BEQ then branch (cur.reg rs1 == cur.reg rs2)
  else if funct3 = BNE then branch (cur.reg rs1 != cur.reg rs2)
  else if funct3 = BLT then branch ((cur.reg rs1).slt (cur.reg rs2))
  else if funct3 = BLTU then branch ((cur.reg rs1).ult (cur.reg rs2))
  else if funct3 = BGE then branch (!(cur.reg rs1).slt (cur.reg rs2))
  else if funct3 = BGEU then branch (!(cur.reg rs1).ult (cur.reg rs2))
  else s

def decodeB (s : Sim) (instrOpcode : BitVec 32) : Sim :=
  let funct3 := instrOpcode >>> 12 &&& 0x07
  let rs1 := instrOpcode >>> 15 &&& 0x1F
  let rs2 := instrOpcode >>> 20 &&& 0x1F
  let imm := ((instrOpcode >>> 31 &&& 0x01) <<< 12) |||
    ((instrOpcode >>> 7 &&& 0x01) <<< 11) |||
    ((instrOpcode >>> 25 &&& 0x3F) <<< 5) |||
    ((instrOpcode >>> 8 &&& 0x0F) <<< 1)
  executeB s funct3 rs1 rs2 imm

/-- `execute_u` -/
def executeU (s : Sim) (opcode rd imm : BitVec 32) : Sim :=
  let cur := s.current
  let uVal := imm <<< 12
  if opcode = LUI then
    s.assign fun n => (n.setReg rd (if rd ≠ 0 then uVal else 0)).setPc (cur.pc + 4)
  else if opcode = AUIPC then
    s.assign fun n =>
      (n.setReg rd (if rd ≠ 0 then cur.pc + uVal else 0)).setPc (cur.pc + 4)
  else s

def decodeU (s : Sim) (instrOpcode : BitVec 32) : Sim :=
  let opcode := instrOpcode &&& 0x7F
  let rd := instrOpcode >>> 7 &&& 0x1F
  let imm := instrOpcode >>> 12 &&& 0xFFFFF
  executeU s opcode rd imm

/-- `execute_j` -/
def executeJ (s : Sim) (rd imm : BitVec 32) : Sim :=
  let cur := s.current
  let s := s.assign (·.setPc (cur.pc + extend 20 11 imm))
  if rd ≠ 0 then s.assign (·.setReg rd (cur.pc + 4)) else s

def decodeJ (s : Sim) (instrOpcode : BitVec 32) : Sim :=
  let rd := instrOpcode >>> 7 &&& 0x1F
  let imm := ((instrOpcode >>> 31 &&& 0x01) <<< 20) |||
    ((instrOpcode >>> 12 &&& 0xFF) <<< 12) |||
    ((instrOpcode >>> 20 &&& 0x01) <<< 11) |||
    ((instrOpcode >>> 21 &&& 0x3FF) <<< 1)
  executeJ s rd imm

/-! ## Cycles -/

/-- `process_instruction` -/
def processInstruction (s : Sim) : Sim :=
  let instrOpcode := s.memRead s.current.pc
  let s := { s with instrOpcode := instrOpcode }
  match decodeInstrType instrOpcode with
  | some .r => decodeR s instrOpcode
  | some .i => decodeI s instrOpcode
  | some .s => decodeS s instrOpcode
  | some .b => decodeB s instrOpcode
  | some .u => decodeU s instrOpcode
  | some .j => decodeJ s instrOpcode
  | none => { s with runBit := false }

/-- `cycle` -/
def cycle (s : Sim) : Sim :=
  let s := processInstruction s
  { s with current := s.next }

/-- `init_memory`: all bytes are `0xef`.  `PRELOAD_ARCH_REGS` is a switch of the build. -/
def initMemory (preloadArchRegs : Bool) : Sim :=
  let cpu : CpuState :=
    { pc := 0x2000
      regs := fun i =>
        if preloadArchRegs then BitVec.ofNat 32 (i.toNat * 32 + i.toNat % 3) else 0 }
  { current := cpu, next := cpu, mem := fun _ _ => 0xef, runBit := true, instrOpcode := 0 }

/-- `load_program`, from the pairs of address and word that the two files hold. -/
def loadProgram (s : Sim) (words : List (BitVec 32 × BitVec 32)) : Sim :=
  words.foldl (fun s word => s.memWrite word.1 word.2) s

/-- The simulator after `k` calls of `cycle`. -/
def cycles (s : Sim) : Nat → Sim
  | 0 => s
  | k + 1 => cycle (cycles s k)

end SimpleCpu.RiscV.Iss
