import Mathlib.Logic.Function.Basic

/-!
# The instructions both RISC-V machines implement

An abstract reading of the repository's RISC-V encodings: the instructions that the
simulator and the pipeline agree on, what each does to the program counter and the
registers, and how a word encodes one.  Stores are not among them.

The simulator and the pipeline are each shown to follow this reading; neither is
translated from it.
-/

namespace SimpleCpu.RiscV.Isa

/-- Register-to-register and immediate operations. -/
inductive AluFun where
  | add | sub | and | or | xor | sll | srl | sra | slt | sltu
  deriving DecidableEq, Repr

def AluFun.eval (a b : BitVec 32) : AluFun → BitVec 32
  | .add => a + b
  | .sub => a - b
  | .and => a &&& b
  | .or => a ||| b
  | .xor => a ^^^ b
  | .sll => a <<< (b.toNat % 32)
  | .srl => a >>> (b.toNat % 32)
  | .sra => a.sshiftRight (b.toNat % 32)
  | .slt => (BitVec.ofBool (a.slt b)).setWidth 32
  | .sltu => (BitVec.ofBool (a.ult b)).setWidth 32

/-- Conditions of the branches. -/
inductive BrnFun where
  | beq | bne | blt | bge | bltu | bgeu
  deriving DecidableEq, Repr

def BrnFun.eval (a b : BitVec 32) : BrnFun → Bool
  | .beq => a == b
  | .bne => a != b
  | .blt => a.slt b
  | .bge => !a.slt b
  | .bltu => a.ult b
  | .bgeu => !a.ult b

inductive Instr where
  | r (f : AluFun) (rd rs1 rs2 : BitVec 5)
  | i (f : AluFun) (rd rs1 : BitVec 5) (imm : BitVec 12)
  | lw (rd rs1 : BitVec 5) (imm : BitVec 12)
  | b (f : BrnFun) (rs1 rs2 : BitVec 5) (imm : BitVec 12)
  | lui (rd : BitVec 5) (imm : BitVec 20)
  | auipc (rd : BitVec 5) (imm : BitVec 20)
  | jal (rd : BitVec 5) (imm : BitVec 20)
  deriving DecidableEq, Repr

/-! ## Meaning -/

/-- A write to a general register; register 0 is not written. -/
def writeReg (regs : BitVec 5 → BitVec 32) (rd : BitVec 5) (value : BitVec 32) :
    BitVec 5 → BitVec 32 :=
  if rd = 0 then regs else Function.update regs rd value

/-- The value an instruction writes back, and the register. -/
def Instr.result (load : BitVec 32 → BitVec 32) (pc : BitVec 32)
    (regs : BitVec 5 → BitVec 32) : Instr → Option (BitVec 5 × BitVec 32)
  | .r f rd rs1 rs2 => some (rd, f.eval (regs rs1) (regs rs2))
  | .i f rd rs1 imm => some (rd, f.eval (regs rs1) (imm.signExtend 32))
  | .lw rd rs1 imm => some (rd, load (regs rs1 + imm.signExtend 32))
  | .b .. => none
  | .lui rd imm => some (rd, imm ++ 0#12)
  | .auipc rd imm => some (rd, pc + (imm ++ 0#12))
  | .jal rd _ => some (rd, pc + 4)

def Instr.nextRegs (load : BitVec 32 → BitVec 32) (pc : BitVec 32)
    (regs : BitVec 5 → BitVec 32) (x : Instr) : BitVec 5 → BitVec 32 :=
  match x.result load pc regs with
  | some (rd, value) => writeReg regs rd value
  | none => regs

def Instr.nextPc (pc : BitVec 32) (regs : BitVec 5 → BitVec 32) : Instr → BitVec 32
  | .b f rs1 rs2 imm =>
      if f.eval (regs rs1) (regs rs2) then pc + (imm ++ 0#1).signExtend 32 else pc + 4
  | .jal _ imm => pc + (imm ++ 0#1).signExtend 32
  | _ => pc + 4

/-- Only a load looks at memory. -/
theorem Instr.nextRegs_congr {load load' : BitVec 32 → BitVec 32} {pc : BitVec 32}
    {regs : BitVec 5 → BitVec 32} {x : Instr}
    (h : ∀ rd rs1 imm, x = .lw rd rs1 imm →
      load (regs rs1 + imm.signExtend 32) = load' (regs rs1 + imm.signExtend 32)) :
    x.nextRegs load pc regs = x.nextRegs load' pc regs := by
  cases x with
  | lw rd rs1 imm => simp only [nextRegs, result, h rd rs1 imm rfl]
  | r | i | b | lui | auipc | jal => rfl

/-- Register 0 stays zero. -/
theorem Instr.nextRegs_zero (load : BitVec 32 → BitVec 32) (pc : BitVec 32)
    {regs : BitVec 5 → BitVec 32} (h0 : regs 0 = 0) (x : Instr) :
    x.nextRegs load pc regs 0 = 0 := by
  unfold nextRegs
  cases x.result load pc regs with
  | none => exact h0
  | some rv =>
      show writeReg regs rv.1 rv.2 0 = 0
      unfold writeReg
      split
      next => exact h0
      next hrd => rw [Function.update_of_ne (Ne.symm hrd), h0]

/-! ## Encoding -/

/-- `{funct7[5], funct3}` of an R-type word. -/
def aluFunR (funct : BitVec 4) : Option AluFun :=
  if funct = 0x0 then some .add
  else if funct = 0x8 then some .sub
  else if funct = 0x7 then some .and
  else if funct = 0x6 then some .or
  else if funct = 0x4 then some .xor
  else if funct = 0x1 then some .sll
  else if funct = 0x5 then some .srl
  else if funct = 0xd then some .sra
  else if funct = 0x2 then some .slt
  else if funct = 0x3 then some .sltu
  else none

/-- `funct3` of an immediate operation both machines have. -/
def aluFunI (funct3 : BitVec 3) : Option AluFun :=
  if funct3 = 0 then some .add
  else if funct3 = 2 then some .slt
  else if funct3 = 3 then some .sltu
  else if funct3 = 4 then some .xor
  else if funct3 = 6 then some .or
  else none

def brnFun (funct3 : BitVec 3) : Option BrnFun :=
  if funct3 = 0 then some .beq
  else if funct3 = 1 then some .bne
  else if funct3 = 4 then some .blt
  else if funct3 = 5 then some .bge
  else if funct3 = 6 then some .bltu
  else if funct3 = 7 then some .bgeu
  else none

/-- The six branches. -/
theorem brnFun_cases {fn : BitVec 3} {f : BrnFun} (h : brnFun fn = some f) :
    fn = 0 ∧ f = .beq ∨ fn = 1 ∧ f = .bne ∨ fn = 4 ∧ f = .blt ∨ fn = 5 ∧ f = .bge ∨
      fn = 6 ∧ f = .bltu ∨ fn = 7 ∧ f = .bgeu := by
  have hrow : ∀ fn : BitVec 3, ∀ f ∈ brnFun fn,
      fn = 0 ∧ f = .beq ∨ fn = 1 ∧ f = .bne ∨ fn = 4 ∧ f = .blt ∨ fn = 5 ∧ f = .bge ∨
        fn = 6 ∧ f = .bltu ∨ fn = 7 ∧ f = .bgeu := by
    decide
  exact hrow fn f h

/-- The code of an operation, `aluFunR` backwards. -/
def AluFun.code : AluFun → BitVec 4
  | .add => 0x0
  | .sub => 0x8
  | .and => 0x7
  | .or => 0x6
  | .xor => 0x4
  | .sll => 0x1
  | .srl => 0x5
  | .sra => 0xd
  | .slt => 0x2
  | .sltu => 0x3

theorem eq_code_of_aluFunR {fn : BitVec 4} {f : AluFun} (h : aluFunR fn = some f) :
    fn = f.code := by
  have hrow : ∀ fn : BitVec 4, ∀ f ∈ aluFunR fn, fn = f.code := by decide
  exact hrow fn f h

/-- The five immediate operations. -/
theorem aluFunI_cases {fn : BitVec 3} {f : AluFun} (h : aluFunI fn = some f) :
    fn = 0 ∧ f = .add ∨ fn = 2 ∧ f = .slt ∨ fn = 3 ∧ f = .sltu ∨ fn = 4 ∧ f = .xor ∨
      fn = 6 ∧ f = .or := by
  have hrow : ∀ fn : BitVec 3, ∀ f ∈ aluFunI fn,
      fn = 0 ∧ f = .add ∨ fn = 2 ∧ f = .slt ∨ fn = 3 ∧ f = .sltu ∨ fn = 4 ∧ f = .xor ∨
        fn = 6 ∧ f = .or := by
    decide
  exact hrow fn f h

section Fields

variable (w : BitVec 32)

def opcode : BitVec 7 := w.extractLsb' 0 7
def rd : BitVec 5 := w.extractLsb' 7 5
def funct3 : BitVec 3 := w.extractLsb' 12 3
def rs1 : BitVec 5 := w.extractLsb' 15 5
def rs2 : BitVec 5 := w.extractLsb' 20 5
def functR : BitVec 4 := w.extractLsb' 30 1 ++ w.extractLsb' 12 3
def immI : BitVec 12 := w.extractLsb' 20 12
def immB : BitVec 12 :=
  w.extractLsb' 31 1 ++ w.extractLsb' 7 1 ++ w.extractLsb' 25 6 ++ w.extractLsb' 8 4
def immU : BitVec 20 := w.extractLsb' 12 20
def immJ : BitVec 20 :=
  w.extractLsb' 31 1 ++ w.extractLsb' 12 8 ++ w.extractLsb' 20 1 ++ w.extractLsb' 21 10

/-- The instruction a word encodes. -/
def decodeInstr : Option Instr :=
  if opcode w = 0x33 then
    (aluFunR (functR w)).map fun f => .r f (rd w) (rs1 w) (rs2 w)
  else if opcode w = 0x13 then
    (aluFunI (funct3 w)).map fun f => .i f (rd w) (rs1 w) (immI w)
  else if opcode w = 0x03 then
    if funct3 w = 2 then some (.lw (rd w) (rs1 w) (immI w)) else none
  else if opcode w = 0x63 then
    (brnFun (funct3 w)).map fun f => .b f (rs1 w) (rs2 w) (immB w)
  else if opcode w = 0x37 then some (.lui (rd w) (immU w))
  else if opcode w = 0x27 then some (.auipc (rd w) (immU w))
  else if opcode w = 0x6F then some (.jal (rd w) (immJ w))
  else none

/-- The encodings one by one, each with its fields. -/
inductive Encodes : Instr → Prop where
  | r {f : AluFun} (hop : opcode w = 0x33) (hf : aluFunR (functR w) = some f) :
      Encodes (.r f (rd w) (rs1 w) (rs2 w))
  | i {f : AluFun} (hop : opcode w = 0x13) (hf : aluFunI (funct3 w) = some f) :
      Encodes (.i f (rd w) (rs1 w) (immI w))
  | lw (hop : opcode w = 0x03) (hf : funct3 w = 2) :
      Encodes (.lw (rd w) (rs1 w) (immI w))
  | b {f : BrnFun} (hop : opcode w = 0x63) (hf : brnFun (funct3 w) = some f) :
      Encodes (.b f (rs1 w) (rs2 w) (immB w))
  | lui (hop : opcode w = 0x37) : Encodes (.lui (rd w) (immU w))
  | auipc (hop : opcode w = 0x27) : Encodes (.auipc (rd w) (immU w))
  | jal (hop : opcode w = 0x6F) : Encodes (.jal (rd w) (immJ w))

variable {w}

theorem encodes_of_decodeInstr {x : Instr} (h : decodeInstr w = some x) :
    Encodes w x := by
  unfold decodeInstr at h
  split at h
  next hop =>
    obtain ⟨f, hf, rfl⟩ := Option.map_eq_some_iff.mp h
    exact .r hop hf
  next =>
  split at h
  next hop =>
    obtain ⟨f, hf, rfl⟩ := Option.map_eq_some_iff.mp h
    exact .i hop hf
  next =>
  split at h
  next hop =>
    split at h
    next hf =>
      obtain rfl := Option.some.inj h
      exact .lw hop hf
    next => simp at h
  next =>
  split at h
  next hop =>
    obtain ⟨f, hf, rfl⟩ := Option.map_eq_some_iff.mp h
    exact .b hop hf
  next =>
  split at h
  next hop =>
    obtain rfl := Option.some.inj h
    exact .lui hop
  next =>
  split at h
  next hop =>
    obtain rfl := Option.some.inj h
    exact .auipc hop
  next =>
  split at h
  next hop =>
    obtain rfl := Option.some.inj h
    exact .jal hop
  next => simp at h

end Fields

/-! ## The classes of programs -/

/-- The R-type operations, the immediate operations, `LUI`, `AUIPC` and `JAL`. -/
def Instr.isComputational : Instr → Bool
  | .r .. | .i .. | .lui .. | .auipc .. | .jal .. => true
  | _ => false

/-- Ten computational instructions and the six conditional branches. -/
def Instr.isControlFlow : Instr → Bool
  | .r f .. => f ∈ [.add, .sub, .and, .or, .xor, .slt, .sltu]
  | .i f .. => f == .add
  | .b .. | .lui .. | .jal .. => true
  | _ => false

/-- Straight-line code with loads. -/
def Instr.isLoadCode : Instr → Bool
  | .r f .. => f ∈ [.add, .sub, .and, .or, .xor]
  | .i f .. => f == .add
  | .lw .. | .lui .. => true
  | _ => false

end SimpleCpu.RiscV.Isa
