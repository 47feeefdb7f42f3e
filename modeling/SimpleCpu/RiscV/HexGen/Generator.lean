import SimpleCpu.HexGen.Slots
import SimpleCpu.RiscV.HexGen.Encode

/-!
# The RISC-V program generator

`hex_gen.c`: a word is drawn, loaded at `CURRENT_STATE.PC`, executed by the simulator
that is linked in, and recorded in `PC` and `instr`, which are indexed from the start of
the text region.  `make_room` puts a jump where two slots in a row are not free.

`rand` is the list of numbers that `rand()` is still to return, and the files are the
lists that are written to them.  What is printed is left out.  Every call in the
repository passes `vopt` 0, and `gen_end_seq` is not called, so neither is here.
-/

namespace SimpleCpu.RiscV.HexGen

open SimpleCpu.HexGen SimpleCpu.Iss SimpleCpu.RiscV.Iss

/-! ## State -/

def memDataStart : BitVec 32 := 0x00000000
def memDataSize : BitVec 32 := 0x00001FFF
def memTextStart : BitVec 32 := 0x00002000
def memTextSize : BitVec 32 := 0x00001FFF

/-- The global variables. -/
structure Gen where
  sim : Sim
  pc : Slots
  instr : BitVec 32 → BitVec 32
  lsAddr : Nat → BitVec 32
  brAddr : Nat → BitVec 32
  prevPc : BitVec 32
  instrGen : Nat
  rand : List Nat

/-- `init_hex_gen` and `init_memory`. -/
def init (preloadArchRegs : Bool) (rand : List Nat) : Gen where
  sim := initMemory preloadArchRegs
  pc := fun _ => false
  instr := fun _ => 0
  lsAddr := fun _ => 0
  brAddr := fun _ => 0
  prevPc := memTextStart
  instrGen := 0
  rand := rand

namespace Gen

variable (g : Gen)

/-- `CURRENT_STATE.PC` -/
def cur : BitVec 32 := g.sim.current.pc

/-- `CURRENT_STATE.REGS` -/
def regs : BitVec 5 → BitVec 32 := g.sim.current.regs

/-- `update_cpu` -/
def updateCpu (pc hexInstr : BitVec 32) : Except Stop Gen :=
  if pc - memTextStart < imemSize then
    .ok { g with pc := Function.update g.pc (pc - memTextStart) true
                 instr := Function.update g.instr (pc - memTextStart) hexInstr
                 prevPc := g.cur }
  else .error (.index (pc - memTextStart))

/-- `load_instr_opcode` -/
def loadInstrOpcode (instrOpcode : BitVec 32) : Gen :=
  { g with sim := g.sim.memWrite g.cur instrOpcode }

/-- `run (1)` -/
def run : Except Stop Gen :=
  if g.sim.runBit = false then .error .exit else .ok { g with sim := cycle g.sim }

/-! ## Room -/

/-- The test in front of the search of `make_room`; it compares an index with an
address. -/
def hasRoom : Except Stop Bool := do
  let pc := g.cur - memTextStart
  return (← g.pc.isFree pc) && pc != memTextStart + memTextSize - 0xFF

/-- `i-MEM_TEXT_START` in
`for (i = MEM_TEXT_START+4; i < (MEM_TEXT_START+MEM_TEXT_SIZE); i=i+4)` -/
def roomIndices : List (BitVec 32) :=
  (List.range 2047).map fun k => BitVec.ofNat 32 (4 * k + 4)

/-- `make_room` -/
def makeRoom : Except Stop Gen := do
  if ← g.hasRoom then return g
  match ← g.pc.find roomIndices with
  | some i =>
      match g.rand with
      | [] => .error .draws
      | n :: rand =>
          let opcode := genJ g.cur (i + memTextStart) n
          let g ← ({ g with rand := rand }.loadInstrOpcode opcode).run
          g.updateCpu g.prevPc opcode
  | none => .error .exit

/-! ## Checks -/

/-- `check_ls_addr` -/
def checkLsAddr (rs : BitVec 5) (imm : BitVec 32) : BitVec 32 :=
  let addr := (g.regs rs + extend 11 20 imm) &&& 0xFFFFFFFC
  if memDataStart < addr ∧ addr < memDataStart + memDataSize then addr
  else if memDataStart + memDataSize < g.regs rs then 2
  else 0

/-- `check_brn_addr`; the guard keeps the index inside `PC`. -/
def checkBrnAddr (imm : BitVec 32) : BitVec 32 :=
  let addr := g.cur + extend 12 19 imm
  if memTextStart < addr ∧ addr ≤ memTextStart + memTextSize - 0xFF ∧
      g.pc (addr - memTextStart) = false then addr
  else -1

/-- `addr` of `check_j_addr`.  The sum is shifted for `JALR`, the offset otherwise. -/
def jAddr (imm funct : BitVec 32) (rs1 : BitVec 5) : BitVec 32 :=
  if funct = JALR then (g.regs rs1 + extend 11 20 imm) <<< 1
  else g.cur + (extend 20 11 imm) <<< 1

/-- `check_j_addr` -/
def checkJAddr (imm funct : BitVec 32) (rs1 : BitVec 5) : Bool :=
  let addr := g.jAddr imm funct rs1
  memTextStart < addr && addr ≤ memTextStart + memTextSize - 0xFF &&
    !g.pc (addr - memTextStart)

/-- `decode_brn_result` -/
def decodeBrnResult (rs1 rs2 : BitVec 5) (funct3 : BitVec 32) : Bool :=
  if funct3 = BEQ then g.regs rs1 == g.regs rs2
  else if funct3 = BNE then g.regs rs1 != g.regs rs2
  else if funct3 = BLT then (g.regs rs1).slt (g.regs rs2)
  else if funct3 = BLTU then (g.regs rs1).ult (g.regs rs2)
  else if funct3 = BGE then !(g.regs rs1).slt (g.regs rs2)
  else if funct3 = BGEU then !(g.regs rs1).ult (g.regs rs2)
  else false

end Gen

/-! ## Instructions -/

def functValRType : List (BitVec 32) := [SLL, SRL, SRA, ADD, SUB, AND, OR, XOR, SLT, SLTU]

def opcodeValIType : List (BitVec 32) := [ADDI, SLTI, SLTIU, ANDI, ORI, XORI, JALR, LW]

def opcodeValSType : List (BitVec 32) := [SW]

def opcodeValBType : List (BitVec 32) := [BEQ, BNE, BLT, BLTU, BGE, BGEU]

def opcodeValUType : List (BitVec 32) := [Iss.LUI, Iss.AUIPC]

/-- What `gen_r_instr` draws. -/
structure RArgs where
  funct7 : BitVec 32
  funct3 : BitVec 32
  rd : BitVec 5
  rs1 : BitVec 5
  rs2 : BitVec 5

def RArgs.word (a : RArgs) : BitVec 32 :=
  rWord a.funct7 (a.rs2.setWidth 32) (a.rs1.setWidth 32) a.funct3 (a.rd.setWidth 32)

/-- What `gen_i_instr` draws. -/
structure IArgs where
  opcode : BitVec 32
  funct3 : BitVec 32
  rd : BitVec 5
  rs1 : BitVec 5
  imm : BitVec 32

def IArgs.word (a : IArgs) : BitVec 32 :=
  iWord a.opcode a.imm (a.rs1.setWidth 32) a.funct3 (a.rd.setWidth 32)

/-- `funct` of `gen_i_instr`. -/
def iFunct (opcode funct3 : BitVec 32) : BitVec 32 := ((opcode >>> 4 &&& 0x1) <<< 4) ||| funct3

/-- What `gen_s_instr` and `gen_b_instr` draw. -/
structure SbArgs where
  funct3 : BitVec 32
  rs1 : BitVec 5
  rs2 : BitVec 5
  imm : BitVec 32

def SbArgs.sWord (a : SbArgs) : BitVec 32 :=
  HexGen.sWord 0x23 a.imm (a.rs2.setWidth 32) (a.rs1.setWidth 32) a.funct3

def SbArgs.bWord (a : SbArgs) : BitVec 32 :=
  HexGen.bWord 0x63 a.imm (a.rs2.setWidth 32) (a.rs1.setWidth 32) a.funct3

/-- What `gen_u_instr` and `gen_j_instr` draw. -/
structure UjArgs where
  opcode : BitVec 32
  rd : BitVec 5
  imm : BitVec 32

def UjArgs.uWord (a : UjArgs) : BitVec 32 := HexGen.uWord a.opcode a.imm (a.rd.setWidth 32)

def UjArgs.jWord (a : UjArgs) : BitVec 32 := HexGen.jWord a.opcode a.imm (a.rd.setWidth 32)

def isLoad (funct : BitVec 32) : Bool :=
  funct = LW ∨ funct = LB ∨ funct = LH ∨ funct = LBU ∨ funct = LHU

/-- Where the checks go: back to the base register, back to the immediate, or on. -/
inductive Verdict where
  | base
  | imm
  | fine
  deriving DecidableEq, Repr

namespace Gen

variable (g : Gen)

def lsVerdict (rs : BitVec 5) (imm : BitVec 32) : Verdict :=
  if g.checkLsAddr rs imm = 2 then .base
  else if g.checkLsAddr rs imm = 0 then .imm
  else .fine

def iVerdict (funct : BitVec 32) (rs1 : BitVec 5) (imm : BitVec 32) : Verdict :=
  if isLoad funct then g.lsVerdict rs1 imm
  else if funct = JALR then if g.checkJAddr imm JALR rs1 then .fine else .base
  else .fine

/-- `ls_addr[instr_gen+1] = addr` -/
def recordLs (rs : BitVec 5) (imm : BitVec 32) : Except Stop Gen :=
  if g.instrGen + 1 < 0x2000 then
    .ok { g with lsAddr := Function.update g.lsAddr (g.instrGen + 1) (g.checkLsAddr rs imm) }
  else .error .undefined

/-- `br_addr[instr_gen+1] = addr` -/
def recordBr (imm : BitVec 32) : Except Stop Gen :=
  if g.instrGen + 1 < 0x2000 then
    .ok { g with brAddr := Function.update g.brAddr (g.instrGen + 1) (g.checkBrnAddr imm) }
  else .error .undefined

/-- The end of the `gen_` functions: the word is loaded, executed and recorded. -/
def emit (hexInstr : BitVec 32) : Except Stop Gen := do
  let g ← (g.loadInstrOpcode hexInstr).run
  let g ← g.updateCpu (if g.instrGen = 0 then memTextStart else g.prevPc) hexInstr
  return { g with instrGen := g.instrGen + 1 }

def drawR : List Nat → Except Stop (RArgs × List Nat)
  | functIdx :: rs1 :: rs2 :: rd :: rand =>
      let funct := functValRType.getD (functIdx % 10) 0
      .ok ({ funct7 := 0x0 ||| ((funct >>> 3 &&& 0x1) <<< 5), funct3 := funct &&& 0x7
             rd := BitVec.ofNat 5 rd, rs1 := BitVec.ofNat 5 rs1, rs2 := BitVec.ofNat 5 rs2 },
        rand)
  | _ => .error .draws

/-- From the label `RS1_I` on, or from `IMM_I` on when `rs1` has been drawn. -/
def drawImm (funct : BitVec 32) :
    Option (BitVec 5) → List Nat → Except Stop ((BitVec 5 × BitVec 32) × List Nat)
  | _, [] => .error .draws
  | none, n :: rand => drawImm funct (some (BitVec.ofNat 5 n)) rand
  | some rs1, n :: rand =>
      match g.iVerdict funct rs1 (BitVec.ofNat 32 (n % 0xFFF)) with
      | .base => drawImm funct none rand
      | .imm => drawImm funct (some rs1) rand
      | .fine => .ok ((rs1, BitVec.ofNat 32 (n % 0xFFF)), rand)

def drawI : List Nat → Except Stop (IArgs × List Nat)
  | functIdx :: rd :: rand => do
      let val := opcodeValIType.getD (functIdx % 8) 0
      let opcode := ((val >>> 4 &&& 0x1) <<< 4) ||| 0x3
      let funct3 := val &&& 0x7
      let ((rs1, imm), rand) ← g.drawImm (iFunct opcode funct3) none rand
      return ({ opcode := opcode, funct3 := funct3, rd := BitVec.ofNat 5 rd, rs1 := rs1
                imm := imm }, rand)
  | _ => .error .draws

/-- From the label `OUT_S` on. -/
def drawBase (rs2 : BitVec 5) (imm : BitVec 32) :
    List Nat → Except Stop ((BitVec 5 × BitVec 32) × List Nat)
  | [] => if g.lsVerdict rs2 imm = .fine then .ok ((rs2, imm), []) else .error .draws
  | n :: rand =>
      match g.lsVerdict rs2 imm with
      | .base => drawBase (BitVec.ofNat 5 n) imm rand
      | .imm => drawBase rs2 (BitVec.ofNat 32 (n % 0xFFF)) rand
      | .fine => .ok ((rs2, imm), n :: rand)

def drawS : List Nat → Except Stop (SbArgs × List Nat)
  | functIdx :: rs1 :: rs2 :: imm :: rand => do
      let funct3 := opcodeValSType.getD (functIdx % 1) 0
      let ((rs2, imm), rand) ←
        g.drawBase (BitVec.ofNat 5 rs2) (BitVec.ofNat 32 (imm % 0xFFF)) rand
      return ({ funct3 := funct3, rs1 := BitVec.ofNat 5 rs1, rs2 := rs2, imm := imm }, rand)
  | _ => .error .draws

/-- From the label `IMM_B` on. -/
def drawOffsetB (taken : Bool) : List Nat → Except Stop (BitVec 32 × List Nat)
  | [] => .error .draws
  | n :: rand =>
      let imm := BitVec.ofNat 32 (n % 0xFFF) <<< 2
      if taken && g.checkBrnAddr imm == -1 then drawOffsetB taken rand else .ok (imm, rand)

def drawB : List Nat → Except Stop (SbArgs × List Nat)
  | functIdx :: rs1 :: rs2 :: rand => do
      let funct3 := opcodeValBType.getD (functIdx % 6) 0
      let rs1 := BitVec.ofNat 5 rs1
      let rs2 := BitVec.ofNat 5 rs2
      let (imm, rand) ← g.drawOffsetB (g.decodeBrnResult rs1 rs2 funct3) rand
      return ({ funct3 := funct3, rs1 := rs1, rs2 := rs2, imm := imm }, rand)
  | _ => .error .draws

def drawU : List Nat → Except Stop (UjArgs × List Nat)
  | opcodeIdx :: rd :: imm :: rand =>
      .ok ({ opcode := opcodeValUType.getD (opcodeIdx % 2) 0, rd := BitVec.ofNat 5 rd
             imm := BitVec.ofNat 32 (imm % 0xFFFFF) }, rand)
  | _ => .error .draws

/-- From the label `IMM_J` on. -/
def drawOffsetJ : List Nat → Except Stop (BitVec 32 × List Nat)
  | [] => .error .draws
  | n :: rand =>
      let imm := BitVec.ofNat 32 (n % 0x100000 + 1) <<< 2
      if g.checkJAddr imm 0 0 then .ok (imm, rand) else drawOffsetJ rand

/-- The number drawn first is not used. -/
def drawJ : List Nat → Except Stop (UjArgs × List Nat)
  | _ :: rd :: rand => do
      let (imm, rand) ← g.drawOffsetJ rand
      return ({ opcode := 0x6F, rd := BitVec.ofNat 5 rd, imm := imm }, rand)
  | _ => .error .draws

/-- `gen_r_instr` -/
def genRInstr : Except Stop Gen := do
  let (a, rand) ← drawR g.rand
  { g with rand := rand }.emit a.word

/-- `gen_i_instr` -/
def genIInstr : Except Stop Gen := do
  let (a, rand) ← g.drawI g.rand
  let g := { g with rand := rand }
  let g ← if isLoad (iFunct a.opcode a.funct3) then g.recordLs a.rs1 a.imm else .ok g
  g.emit a.word

/-- `gen_s_instr` -/
def genSInstr : Except Stop Gen := do
  let (a, rand) ← g.drawS g.rand
  let g ← { g with rand := rand }.recordLs a.rs2 a.imm
  g.emit a.sWord

/-- `gen_b_instr` -/
def genBInstr : Except Stop Gen := do
  let (a, rand) ← g.drawB g.rand
  let g := { g with rand := rand }
  let g ← if g.decodeBrnResult a.rs1 a.rs2 a.funct3 then g.recordBr a.imm else .ok g
  g.emit a.bWord

/-- `gen_u_instr` -/
def genUInstr : Except Stop Gen := do
  let (a, rand) ← drawU g.rand
  { g with rand := rand }.emit a.uWord

/-- `gen_j_instr` -/
def genJInstr : Except Stop Gen := do
  let (a, rand) ← g.drawJ g.rand
  { g with rand := rand }.emit a.jWord

/-! ## Programs -/

/-- `make_room` and the `gen_` function of a format. -/
def request (t : InstrType) : Except Stop Gen := do
  let g ← g.makeRoom
  match t with
  | .r => g.genRInstr
  | .i => g.genIInstr
  | .s => g.genSInstr
  | .b => g.genBInstr
  | .u => g.genUInstr
  | .j => g.genJInstr

/-- `print_to_file` -/
def printToFile : List (BitVec 32 × BitVec 32) :=
  (List.range 2048).filterMap fun k =>
    let i := BitVec.ofNat 32 (4 * k)
    if g.pc i then some (i + memTextStart, g.instr i) else none

end Gen

/-- The sum over the six formats. -/
def total (count : InstrType → Int) : Int :=
  count .r + count .i + count .s + count .b + count .u + count .j

/-- The format that `choice` leads to. -/
def choice (n : Nat) : InstrType := [.r, .i, .s, .b, .u, .j].getD (n % 6) .j

/-- The variables of `gen_instr_hex`: how many instructions of each format it has made. -/
structure Loop where
  made : InstrType → Nat := fun _ => 0
  gen : Gen

section Loop

variable (num : InstrType → Int)

/-- One round of the loop of `gen_instr_hex`. -/
def Loop.round (l : Loop) : Except Stop Loop :=
  match l.gen.rand with
  | [] => .error .draws
  | n :: rand =>
      let g := { l.gen with rand := rand }
      if l.made (choice n) < num (choice n) then do
        let g ← g.request (choice n)
        return { made := Function.update l.made (choice n) (l.made (choice n) + 1), gen := g }
      else .ok { l with gen := g }

/-- `gen_instr_hex`.  Every round draws a number, so there are no more rounds than
numbers. -/
def genInstrHex : Nat → Loop → Except Stop Gen
  | rounds, l =>
      if total (fun t => l.made t) < total num then
        match rounds with
        | 0 => .error .draws
        | rounds + 1 => do genInstrHex rounds (← l.round num)
      else .ok l.gen

/-- `main`, up to the files. -/
def hexGen (preloadArchRegs : Bool) (rand : List Nat) : Except Stop Gen :=
  genInstrHex num rand.length { gen := init preloadArchRegs rand }

end Loop

end SimpleCpu.RiscV.HexGen
