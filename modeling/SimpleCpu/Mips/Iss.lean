import SimpleCpu.Iss.Constants
import SimpleCpu.Iss.Memory

/-!
# The MIPS instruction-set simulator

`sim.c` and the parts of `main.c` that run it, in the manner of the RISC-V simulator: a
`decode` function takes a word apart, its `execute` function reads `CURRENT_STATE` and
assigns to `NEXT_STATE`.  Stores take their data from `NEXT_STATE`.  An encoding that
no case of a `switch` handles leaves `NEXT_STATE` as it was.

The messages printed on the way, and the variables that only the comparison with the
RTL reads (`rt_as_src`, `wr_link_reg`, `instr_count`), are left out.
-/

namespace SimpleCpu.Mips.Iss

open SimpleCpu.Iss

/-! ## State -/

/-- `CPU_State`, without the registers of the exception unit, which nothing uses. -/
structure CpuState where
  pc : BitVec 32
  regs : BitVec 5 → BitVec 32
  hi : BitVec 32
  lo : BitVec 32

/-- `REGS[i]`, for an index that has been masked to five bits. -/
def CpuState.reg (s : CpuState) (i : BitVec 32) : BitVec 32 := s.regs (i.setWidth 5)

/-- `REGS[i] = value`. -/
def CpuState.setReg (s : CpuState) (i value : BitVec 32) : CpuState :=
  { s with regs := Function.update s.regs (i.setWidth 5) value }

def CpuState.setPc (s : CpuState) (pc : BitVec 32) : CpuState := { s with pc := pc }

/-- `MEM_REGIONS`: text, data, stack, kernel data, kernel text. -/
def memRegions : List MemRegion :=
  [{ start := 0x00000000, size := 0x00001FFF },
   { start := 0x00002000, size := 0x00100000 },
   { start := 0x7ff00000, size := 0x00100000 },
   { start := 0x90000000, size := 0x00100000 },
   { start := 0x80000000, size := 0x00100000 }]

/-- The simulator's global state.  `trapped` records a division that C leaves
undefined. -/
structure Sim where
  current : CpuState
  next : CpuState
  mem : Memory
  runBit : Bool
  instrOpcode : BitVec 32
  trapped : Bool

/-- `mem_read_32` -/
def Sim.memRead (s : Sim) (address : BitVec 32) : BitVec 32 :=
  memRead32 memRegions s.mem address

/-- `mem_write_32` -/
def Sim.memWrite (s : Sim) (address value : BitVec 32) : Sim :=
  { s with mem := memWrite32 memRegions s.mem address value }

/-- An assignment to `NEXT_STATE`. -/
def Sim.assign (s : Sim) (f : CpuState → CpuState) : Sim := { s with next := f s.next }

/-! ## `mips_instr_defines.h` -/

def ADD : BitVec 32 := 0x20
def ADDU : BitVec 32 := 0x21
def ADDI : BitVec 32 := 0x8
def ADDIU : BitVec 32 := 0x9
def AND : BitVec 32 := 0x24
def ANDI : BitVec 32 := 0xc
def BVAR : BitVec 32 := 0x1
def BEQ : BitVec 32 := 0x4
def BGEZ : BitVec 32 := 0x1
def BGEZAL : BitVec 32 := 0x11
def BLTZ : BitVec 32 := 0x0
def BLTZAL : BitVec 32 := 0x10
def BGTZ : BitVec 32 := 0x7
def BLEZ : BitVec 32 := 0x6
def BNE : BitVec 32 := 0x5
def DIV : BitVec 32 := 0x1a
def DIVU : BitVec 32 := 0x1b
def J : BitVec 32 := 0x2
def JAL : BitVec 32 := 0x3
def JALR : BitVec 32 := 0x9
def JR : BitVec 32 := 0x8
def LB : BitVec 32 := 0x20
def LBU : BitVec 32 := 0x24
def LH : BitVec 32 := 0x21
def LHU : BitVec 32 := 0x25
def LUI : BitVec 32 := 0xF
def LW : BitVec 32 := 0x23
def MFHI : BitVec 32 := 0x10
def MFLO : BitVec 32 := 0x12
def MTHI : BitVec 32 := 0x11
def MTLO : BitVec 32 := 0x13
def MULT : BitVec 32 := 0x18
def MULTU : BitVec 32 := 0x19
def NOR : BitVec 32 := 0x27
def OR : BitVec 32 := 0x25
def ORI : BitVec 32 := 0xd
def SB : BitVec 32 := 0x28
def SH : BitVec 32 := 0x29
def SW : BitVec 32 := 0x2b
def SLL : BitVec 32 := 0x0
def SLLV : BitVec 32 := 0x4
def SLT : BitVec 32 := 0x2a
def SLTI : BitVec 32 := 0xa
def SLTIU : BitVec 32 := 0xb
def SLTU : BitVec 32 := 0x2b
def SRA : BitVec 32 := 0x3
def SRAV : BitVec 32 := 0x7
def SRL : BitVec 32 := 0x2
def SRLV : BitVec 32 := 0x6
def SUB : BitVec 32 := 0x22
def SUBU : BitVec 32 := 0x23
def SYSCALL : BitVec 32 := 0xc
def XOR : BitVec 32 := 0x26
def XORI : BitVec 32 := 0xe

/-! ## Formats -/

inductive InstrType where
  | r | i | j
  deriving DecidableEq, Repr

/-- `decode_instr_type` -/
def decodeInstrType (instrOpcode : BitVec 32) : InstrType :=
  if instrOpcode >>> 26 = 0 then .r
  else if instrOpcode >>> 26 = 2 ∨ instrOpcode >>> 26 = 3 then .j
  else .i

/-- `execute_r`.  The sign of `SRA` and `SRAV` is bit 28 of `rs`, shifted out. -/
def executeR (s : Sim) (rs rt rd shamt funct : BitVec 32) : Sim :=
  let cur := s.current
  let write (value : BitVec 32) := s.assign fun n => (n.setReg rd value).setPc (cur.pc + 4)
  let arith (amount : BitVec 32) :=
    let sign := (cur.reg rs &&& 0x10000000) >>> 31
    let res := cur.reg rt >>> amount
    write (if sign = 1 then res ||| shiftConst amount else res)
  if rd = 0 ∧ funct ≠ 0x0c then s.assign (·.setPc (cur.pc + 4))
  else if funct = SLL then write (cur.reg rt <<< shamt)
  else if funct = SRL then write (cur.reg rt >>> shamt)
  else if funct = SRA then arith shamt
  else if funct = SLLV then write (cur.reg rt <<< (cur.reg rs &&& 0x1F))
  else if funct = SRLV then write (cur.reg rt >>> (cur.reg rs &&& 0x1F))
  else if funct = SRAV then arith (cur.reg rs &&& 0x1F)
  else if funct = JR then s.assign (·.setPc (cur.reg rs))
  else if funct = JALR then
    s.assign fun n => (n.setPc (cur.reg rs)).setReg 31 (cur.pc + 4)
  else if funct = ADD then write (cur.reg rs + cur.reg rt)
  else if funct = ADDU then write (cur.reg rs + cur.reg rt)
  else if funct = SUB then write (cur.reg rs - cur.reg rt)
  else if funct = SUBU then write (cur.reg rs - cur.reg rt)
  else if funct = AND then write (cur.reg rs &&& cur.reg rt)
  else if funct = OR then write (cur.reg rs ||| cur.reg rt)
  else if funct = XOR then write (cur.reg rs ^^^ cur.reg rt)
  else if funct = NOR then write (~~~(cur.reg rs ||| cur.reg rt))
  else if funct = SLT then write (ofBool ((cur.reg rs).slt (cur.reg rt)))
  else if funct = SLTU then write (ofBool ((cur.reg rs).ult (cur.reg rt)))
  else if funct = MULT ∨ funct = MULTU then
    -- the product is taken in 32 bits before it is widened, so nothing is left for `HI`
    let mulRes := (cur.reg rs * cur.reg rt).setWidth 64
    s.assign fun n =>
      { n with hi := (mulRes >>> 32).setWidth 32, lo := mulRes.setWidth 32
               pc := cur.pc + 4 }
  else if funct = MFHI then write cur.hi
  else if funct = MFLO then write cur.lo
  else if funct = MTHI then s.assign fun n => { n with hi := cur.reg rs, pc := cur.pc + 4 }
  else if funct = MTLO then s.assign fun n => { n with lo := cur.reg rs, pc := cur.pc + 4 }
  else if funct = DIV then
    if cur.reg rt = 0 ∨ (cur.reg rs = 0x80000000 ∧ cur.reg rt = 0xFFFFFFFF) then
      { s with trapped := true }
    else s.assign fun n =>
      { n with lo := (cur.reg rs).sdiv (cur.reg rt), hi := (cur.reg rs).srem (cur.reg rt)
               pc := cur.pc + 4 }
  else if funct = DIVU then
    if cur.reg rt = 0 then { s with trapped := true }
    else s.assign fun n =>
      { n with lo := cur.reg rs / cur.reg rt, hi := cur.reg rs % cur.reg rt
               pc := cur.pc + 4 }
  else if funct = SYSCALL then
    let s := if cur.reg 2 = 0xA then { s with runBit := false } else s
    s.assign (·.setPc (cur.pc + 4))
  else s

def decodeR (s : Sim) (instrOpcode : BitVec 32) : Sim :=
  let rs := instrOpcode >>> 21 &&& 0x1F
  let rt := instrOpcode >>> 16 &&& 0x1F
  let rd := instrOpcode >>> 11 &&& 0x1F
  let shamt := instrOpcode >>> 6 &&& 0x1F
  let funct := instrOpcode &&& 0x3F
  executeR s rs rt rd shamt funct

/-- The offset of a branch: `imm << 2`, extended with the sign of `imm`. -/
def branchOffset (imm : BitVec 32) : BitVec 32 :=
  let sign := (imm &&& 0x8000) >>> 15
  let imm := imm <<< 2
  if sign ≠ 0 then imm ||| shiftConst 14 else imm

/-- `execute_i` -/
def executeI (s : Sim) (opcode rs rt imm : BitVec 32) : Sim :=
  let cur := s.current
  let branch (taken : Bool) := s.assign (·.setPc
    (if taken then cur.pc + 4 + branchOffset imm else cur.pc + 4))
  let link (s : Sim) := s.assign (·.setReg 31 (cur.pc + 4))
  let simm := extend 15 16 imm
  let address := cur.reg rs + simm
  let write (value : BitVec 32) :=
    if rt = 0 then s.assign (·.setPc (cur.pc + 4))
    else s.assign fun n => (n.setReg rt value).setPc (cur.pc + 4)
  let store (address value : BitVec 32) :=
    (s.memWrite address value).assign (·.setPc (cur.pc + 4))
  if opcode = BEQ then branch (cur.reg rs == cur.reg rt)
  else if opcode = BNE then branch (cur.reg rs != cur.reg rt)
  else if opcode = BLEZ then branch ((cur.reg rs).sle 0)
  else if opcode = BGTZ then branch (!(cur.reg rs).sle 0)
  else if opcode = ADDI then write (cur.reg rs + simm)
  else if opcode = ADDIU then write (cur.reg rs + simm)
  else if opcode = SLTI then write (ofBool ((cur.reg rs).slt simm))
  else if opcode = SLTIU then write (ofBool ((cur.reg rs).ult simm))
  else if opcode = ANDI then write (cur.reg rs &&& imm)
  else if opcode = ORI then write (cur.reg rs ||| imm)
  else if opcode = XORI then write (cur.reg rs ^^^ imm)
  else if opcode = LUI then write (imm <<< 16)
  else if opcode = LB then
    let memContent := s.memRead address &&& 0xFF
    write (if memContent >>> 7 ≠ 0 then memContent ||| shiftConst 24 else memContent)
  else if opcode = LH then
    let memContent := s.memRead address &&& 0xFFFF
    write (if memContent >>> 15 ≠ 0 then memContent ||| shiftConst 16 else memContent)
  else if opcode = LW then write (s.memRead (address &&& 0xFFFFFFFC))
  else if opcode = LBU then write (s.memRead address &&& 0xFF)
  else if opcode = LHU then write (s.memRead address &&& 0xFFFF)
  else if opcode = SB then store address (s.next.reg rt &&& 0xFF)
  else if opcode = SH then store address (s.next.reg rt &&& 0xFFFF)
  else if opcode = SW then store (address &&& 0xFFFFFFFC) (s.next.reg rt)
  else if opcode = BVAR then
    if rt = BLTZ then branch ((cur.reg rs).slt 0)
    else if rt = BGEZ then branch (!(cur.reg rs).slt 0)
    else if rt = BLTZAL then link (branch ((cur.reg rs).slt 0))
    else if rt = BGEZAL then link (branch (!(cur.reg rs).slt 0))
    else s
  else s

def decodeI (s : Sim) (instrOpcode : BitVec 32) : Sim :=
  let opcode := instrOpcode >>> 26 &&& 0x3F
  let rs := instrOpcode >>> 21 &&& 0x1F
  let rt := instrOpcode >>> 16 &&& 0x1F
  let imm := instrOpcode &&& 0xFFFF
  executeI s opcode rs rt imm

/-- `execute_j` -/
def executeJ (s : Sim) (opcode target : BitVec 32) : Sim :=
  let cur := s.current
  let index : BitVec 32 := target <<< 2
  let address := ((cur.pc + 4) &&& 0xF0000000) ||| index
  if opcode = J then s.assign (·.setPc address)
  else if opcode = JAL then
    s.assign fun n => (n.setPc address).setReg 31 (cur.pc + 4)
  else s

def decodeJ (s : Sim) (instrOpcode : BitVec 32) : Sim :=
  let opcode := instrOpcode >>> 26 &&& 0x3F
  let address := instrOpcode &&& 0x3FFFFFF
  executeJ s opcode address

/-! ## Cycles -/

/-- `process_instruction` -/
def processInstruction (s : Sim) : Sim :=
  let instrOpcode := s.memRead s.current.pc
  let s := { s with instrOpcode := instrOpcode }
  match decodeInstrType instrOpcode with
  | .r => decodeR s instrOpcode
  | .j => decodeJ s instrOpcode
  | .i => decodeI s instrOpcode

/-- `cycle` -/
def cycle (s : Sim) : Sim :=
  let s := processInstruction s
  { s with current := s.next }

/-- `init_memory`, from registers that are still zero: all bytes are `0xef`. -/
def initMemory : Sim where
  current := { pc := 0, regs := fun _ => 0, hi := 0, lo := 0 }
  next := { pc := 0, regs := fun _ => 0, hi := 0, lo := 0 }
  mem := fun _ _ => 0xef
  runBit := true
  instrOpcode := 0
  trapped := false

/-- `load_program`, from the pairs of address and word that the two files hold. -/
def loadProgram (s : Sim) (words : List (BitVec 32 × BitVec 32)) : Sim :=
  words.foldl (fun s word => s.memWrite word.1 word.2) s

/-- The simulator after `k` calls of `cycle`. -/
def cycles (s : Sim) : Nat → Sim
  | 0 => s
  | k + 1 => cycle (cycles s k)

end SimpleCpu.Mips.Iss
