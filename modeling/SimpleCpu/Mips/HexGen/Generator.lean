import SimpleCpu.HexGen.Slots
import SimpleCpu.Mips.Iss

/-!
# The MIPS program generator

`hex_gen.c`: a word is chosen, loaded at `CURRENT_STATE.PC`, executed by the simulator
that is linked in, and recorded in `PC` and `instr`.  `make_room` puts a jump where two
slots in a row are not free.

`rand` is the list of numbers that `rand()` is still to return, so a run that completes
is a run on a list that is long enough.  The files are the lists that are written to
them.  What is printed is left out; `trace` lists the cycles that `run` has executed,
which the simulator prints, and no function reads it.  Register numbers are below 32, as
the callers pass them.
-/

namespace SimpleCpu.Mips.HexGen

open SimpleCpu.HexGen SimpleCpu.Iss SimpleCpu.Mips.Iss

/-! ## State -/

def memDataStart : BitVec 32 := 0x2000
def memDataSize : BitVec 32 := 0x100000
def memTextStart : BitVec 32 := 0
def memTextSize : BitVec 32 := 0x1FFF

/-- One cycle of the simulator. -/
structure Step where
  pc : BitVec 32
  word : BitVec 32
  regs : BitVec 5 → BitVec 32

/-- The global variables. -/
structure Gen where
  sim : Sim
  pc : Slots
  instr : BitVec 32 → BitVec 32
  lsAddr : Nat → BitVec 32
  brAddr : Nat → BitVec 32
  prevPc : BitVec 32
  instrGen : Nat
  rand : List Nat
  trace : List Step

/-- `init_hex_gen` and `init_memory`. -/
def init (rand : List Nat) : Gen where
  sim := initMemory
  pc := fun _ => false
  instr := fun _ => 0
  lsAddr := fun _ => 0
  brAddr := fun _ => 0
  prevPc := 0
  instrGen := 0
  rand := rand
  trace := []

namespace Gen

variable (g : Gen)

/-- `CURRENT_STATE.PC` -/
def cur : BitVec 32 := g.sim.current.pc

/-- `update_cpu` -/
def updateCpu (pc hexInstr : BitVec 32) : Except Stop Gen :=
  if pc < imemSize then
    .ok { g with pc := Function.update g.pc pc true
                 instr := Function.update g.instr pc hexInstr
                 prevPc := g.cur }
  else .error (.index pc)

/-- `load_instr_opcode` -/
def loadInstrOpcode (instrOpcode : BitVec 32) : Gen :=
  { g with sim := g.sim.memWrite g.cur instrOpcode }

/-- `run (1)` -/
def run : Except Stop Gen :=
  if g.sim.runBit = false then .error .exit
  else if (cycle g.sim).trapped then .error .undefined
  else .ok { g with sim := cycle g.sim
                    trace := g.trace ++
                      [{ pc := g.cur, word := g.sim.memRead g.cur
                         regs := (cycle g.sim).current.regs }] }

/-! ## Room -/

/-- The test in front of the search of `make_room`. -/
def hasRoom : Except Stop Bool := do return (← g.pc.isFree g.cur) && g.cur != 0xFFC

/-- `for (i = 4; i < IMEM_SIZE; i=i+4)` -/
def roomAddrs : List (BitVec 32) := (List.range 2047).map fun k => BitVec.ofNat 32 (4 * k + 4)

/-- `gen_j` -/
def genJ (address : BitVec 32) : BitVec 32 :=
  let target := (address &&& 0xFFFFFFC) >>> 2
  (J <<< 26) + target

/-- `make_room` -/
def makeRoom : Except Stop Gen := do
  if ← g.hasRoom then return g
  match ← g.pc.find roomAddrs with
  | some i =>
      let g ← (g.loadInstrOpcode (genJ i)).run
      g.updateCpu g.prevPc (genJ i)
  | none => .error .exit

/-! ## Checks -/

/-- `check_ls_addr` -/
def checkLsAddr (rs : BitVec 5) (imm : BitVec 32) : BitVec 32 :=
  let addr := g.sim.current.regs rs + extend 15 16 imm
  if memDataStart < addr ∧ addr < memDataStart + memDataSize then addr
  else if memDataStart + memDataSize < g.sim.current.regs rs then 2
  else 0

/-- `check_brn_addr`; the guard keeps the index inside `PC`. -/
def checkBrnAddr (imm : BitVec 32) : BitVec 32 :=
  let addr := g.cur + 4 + branchOffset imm
  if memTextStart < addr ∧ addr ≤ memTextStart + memTextSize - 0xFF ∧ g.pc addr = false then
    addr
  else -1

/-- `check_j_addr`, with its signed comparisons. -/
def checkJAddr (addr : BitVec 32) : Bool :=
  memTextStart.slt addr && addr.slt (memTextStart + memTextSize - 0xFF) && !g.pc addr

end Gen

/-! ## Instructions -/

/-- What `gen_r_instr` is called with, or draws. -/
structure RArgs where
  funct : BitVec 32
  rd : BitVec 5
  rs : BitVec 5
  rt : BitVec 5
  shamt : BitVec 5

/-- What `gen_i_instr` is called with, or draws. -/
structure IArgs where
  opcode : BitVec 32
  rt : BitVec 5
  rs : BitVec 5
  imm : BitVec 32

def functValRType : List (BitVec 32) := [ADD, AND, OR, SLT, SUB]

def opcodeValIType : List (BitVec 32) := [ADDI, ANDI, BEQ, BNE, LW, ORI, SW, SLTI]

def opcodeValJType : List (BitVec 32) := [J]

def RArgs.word (a : RArgs) : BitVec 32 :=
  let opcode : BitVec 32 := 0
  (opcode <<< 26) + (a.rs.setWidth 32 <<< 21) + (a.rt.setWidth 32 <<< 16) +
    (a.rd.setWidth 32 <<< 11) + (a.shamt.setWidth 32 <<< 6) + a.funct

def IArgs.word (a : IArgs) : BitVec 32 :=
  (a.opcode <<< 26) + (a.rs.setWidth 32 <<< 21) + (a.rt.setWidth 32 <<< 16) + a.imm

def jWord (opcode target : BitVec 32) : BitVec 32 := (opcode <<< 26) + target

/-- The branches whose code belongs into the `rt` field; no opcode that is drawn is one. -/
def IArgs.variant (a : IArgs) : IArgs :=
  if a.opcode = BGEZ ∨ a.opcode = BGEZAL ∨ a.opcode = BLTZ ∨ a.opcode = BLTZAL then
    { a with rt := a.opcode.setWidth 5, opcode := 0x1 }
  else a

def isLsOpcode (opcode : BitVec 32) : Bool := opcode = LW ∨ opcode = SW

def isBrnOpcode (opcode : BitVec 32) : Bool :=
  opcode = BVAR ∨ opcode = BEQ ∨ opcode = BGTZ ∨ opcode = BLEZ ∨ opcode = BNE

/-- Where the checks of `gen_i_instr` go. -/
inductive Verdict where
  | rs
  | imm
  | fine
  deriving DecidableEq, Repr

namespace Gen

variable (g : Gen)

def verdict (opcode : BitVec 32) (rs : BitVec 5) (imm : BitVec 32) : Verdict :=
  if isLsOpcode opcode then
    if g.checkLsAddr rs imm = 2 then .rs
    else if g.checkLsAddr rs imm = 0 then .imm
    else .fine
  else if isBrnOpcode opcode then
    if g.checkBrnAddr imm = -1 then .imm else .fine
  else .fine

/-- The entries for `ls_addr` and `br_addr` of an address that is fine. -/
def recordAddr (a : IArgs) : Except Stop Gen :=
  if g.verdict a.opcode a.rs a.imm = .fine then
    if isLsOpcode a.opcode then
      if g.instrGen + 1 < 0x2000 then
        .ok { g with lsAddr :=
                Function.update g.lsAddr (g.instrGen + 1) (g.checkLsAddr a.rs a.imm) }
      else .error .undefined
    else if isBrnOpcode a.opcode then
      if g.instrGen + 1 < 0x2000 then
        .ok { g with brAddr :=
                Function.update g.brAddr (g.instrGen + 1) (g.checkBrnAddr a.imm) }
      else .error .undefined
    else .ok g
  else .ok g

/-- The end of the `gen_` functions: the word is loaded, executed and recorded. -/
def emit (hexInstr : BitVec 32) : Except Stop Gen := do
  let g ← (g.loadInstrOpcode hexInstr).run
  let g ← g.updateCpu (if g.instrGen = 0 then 0 else g.prevPc) hexInstr
  return { g with instrGen := g.instrGen + 1 }

def drawR : List Nat → Except Stop (RArgs × List Nat)
  | functIdx :: rs :: rt :: rd :: shamt :: rand =>
      .ok ({ funct := functValRType.getD (functIdx % 5) 0, rd := BitVec.ofNat 5 rd
             rs := BitVec.ofNat 5 rs, rt := BitVec.ofNat 5 rt
             shamt := BitVec.ofNat 5 shamt }, rand)
  | _ => .error .draws

/-- From the label `RS` on, or from `IMM` on when `rs` has been drawn. -/
def drawImm (opcode : BitVec 32) :
    Option (BitVec 5) → List Nat → Except Stop ((BitVec 5 × BitVec 32) × List Nat)
  | _, [] => .error .draws
  | none, n :: rand => drawImm opcode (some (BitVec.ofNat 5 n)) rand
  | some rs, n :: rand =>
      match g.verdict opcode rs (BitVec.ofNat 32 (n % 0xFFFF)) with
      | .rs => drawImm opcode none rand
      | .imm => drawImm opcode (some rs) rand
      | .fine => .ok ((rs, BitVec.ofNat 32 (n % 0xFFFF)), rand)

def drawI : List Nat → Except Stop (IArgs × List Nat)
  | opcodeIdx :: rt :: rand => do
      let opcode := opcodeValIType.getD (opcodeIdx % 8) 0
      let ((rs, imm), rand) ← g.drawImm opcode none rand
      return ({ opcode := opcode, rt := BitVec.ofNat 5 rt, rs := rs, imm := imm }, rand)
  | _ => .error .draws

/-- The address that `gen_j_instr` checks. -/
def jAddr (target : BitVec 32) : BitVec 32 :=
  let index : BitVec 32 := target <<< 2
  ((g.cur + 4) &&& 0xF0000000) ||| index

/-- From the label `TARGET` on. -/
def drawTarget : List Nat → Except Stop (BitVec 32 × List Nat)
  | [] => .error .draws
  | n :: rand =>
      let target := BitVec.ofNat 32 (n % 0x3FFFFFF)
      if !g.checkJAddr (g.jAddr target) then drawTarget rand
      else if g.pc (g.jAddr target) then drawTarget rand
      else .ok (target, rand)

/-- `gen_r_instr` -/
def genRInstr : Option RArgs → Except Stop Gen
  | some a => g.emit a.word
  | none => do
      let (a, rand) ← drawR g.rand
      { g with rand := rand }.emit a.word

/-- `gen_i_instr` -/
def genIInstr (args : Option IArgs) : Except Stop Gen := do
  let (a, rand) ← match args with
    | some a => .ok (a.variant, g.rand)
    | none => g.drawI g.rand
  let g ← { g with rand := rand }.recordAddr a
  g.emit a.word

/-- `gen_j_instr`.  The table of opcodes has one entry, but the index may be 1. -/
def genJInstr : Except Stop Gen :=
  match g.rand with
  | [] => .error .draws
  | opcodeIdx :: rand =>
      match opcodeValJType[opcodeIdx % 2]? with
      | none => .error .undefined
      | some opcode => do
          let (target, rand) ← g.drawTarget rand
          { g with rand := rand }.emit (jWord opcode target)

end Gen

/-! ## Programs -/

/-- A call of a `gen_` function, with arguments or without. -/
inductive Request where
  | r (args : Option RArgs)
  | i (args : Option IArgs)
  | j

namespace Gen

variable (g : Gen)

/-- `make_room` and the call. -/
def request (r : Request) : Except Stop Gen := do
  let g ← g.makeRoom
  match r with
  | .r args => g.genRInstr args
  | .i args => g.genIInstr args
  | .j => g.genJInstr

def addiOpcode : BitVec 32 := 0x2002000a

def syscallOpcode : BitVec 32 := 0x0000000c

/-- The first half of `gen_end_seq`. -/
def endAddi : Except Stop Gen := do
  let g ← g.makeRoom
  let g ← g.updateCpu g.cur addiOpcode
  let g ← (g.loadInstrOpcode addiOpcode).run
  return { g with instrGen := g.instrGen + 1 }

/-- The second half. -/
def endSyscall : Except Stop Gen := do
  let g ← g.makeRoom
  let g ← g.updateCpu g.cur syscallOpcode
  (g.loadInstrOpcode syscallOpcode).run

/-- `gen_end_seq` -/
def genEndSeq : Except Stop Gen := do
  let g ← g.endAddi
  g.endSyscall

/-- `print_to_file` -/
def printToFile : List (BitVec 32 × BitVec 32) :=
  (List.range 2048).filterMap fun k =>
    let i := BitVec.ofNat 32 (4 * k)
    if g.pc i then some (i, g.instr i) else none

end Gen

/-- The variables of `gen_instr_hex`. -/
structure Loop where
  rGen : Nat := 0
  iGen : Nat := 0
  jGen : Nat := 0
  gen : Gen

section Loop

variable (numR numI numJ : Int)

/-- The request that the number drawn for `choice` leads to, if one is left of its kind. -/
def Loop.choice (l : Loop) (n : Nat) : Option Request :=
  if n % 3 = 0 then if l.rGen < numR then some (.r none) else none
  else if n % 3 = 1 then if l.iGen < numI then some (.i none) else none
  else if l.jGen < numJ then some .j else none

def Loop.count (l : Loop) (g : Gen) : Request → Loop
  | .r _ => { l with rGen := l.rGen + 1, gen := g }
  | .i _ => { l with iGen := l.iGen + 1, gen := g }
  | .j => { l with jGen := l.jGen + 1, gen := g }

/-- One round of the loop of `gen_instr_hex`. -/
def Loop.round (l : Loop) : Except Stop Loop :=
  match l.gen.rand with
  | [] => .error .draws
  | n :: rand =>
      let g := { l.gen with rand := rand }
      match l.choice numR numI numJ n with
      | none => .ok { l with gen := g }
      | some r => do
          let g ← g.request r
          return l.count g r

/-- `gen_instr_hex`.  Every round draws a number, so there are no more rounds than
numbers. -/
def genInstrHex : Nat → Loop → Except Stop Gen
  | rounds, l =>
      if (l.rGen + l.iGen + l.jGen : Int) < numR + numI + numJ then
        match rounds with
        | 0 => .error .draws
        | rounds + 1 => do genInstrHex rounds (← l.round numR numI numJ)
      else .ok l.gen

/-- `main`, up to the files. -/
def hexGen (rand : List Nat) : Except Stop Gen := do
  let g ← genInstrHex numR numI numJ rand.length { gen := init rand }
  g.genEndSeq

end Loop

end SimpleCpu.Mips.HexGen
