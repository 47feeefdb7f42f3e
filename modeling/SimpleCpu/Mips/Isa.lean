import Mathlib.Logic.Function.Basic
import SimpleCpu.Bits.Fields

/-!
# The instructions the MIPS machines implement

An abstract reading of the MIPS encodings that the simulator, the two pipelines and the
single-cycle processor have in common: what each instruction does to the program
counter, the registers and the memory, and how a word encodes one.

Every machine is shown to follow this reading on the instructions it supports; none is
translated from it.
-/

namespace SimpleCpu.Mips.Isa

/-! ## Operations -/

inductive RFun where
  | add | addu | sub | subu | and | or | xor | nor | slt | sltu
  deriving DecidableEq, Repr

def RFun.eval (a b : BitVec 32) : RFun → BitVec 32
  | .add | .addu => a + b
  | .sub | .subu => a - b
  | .and => a &&& b
  | .or => a ||| b
  | .xor => a ^^^ b
  | .nor => ~~~(a ||| b)
  | .slt => (BitVec.ofBool (a.slt b)).setWidth 32
  | .sltu => (BitVec.ofBool (a.ult b)).setWidth 32

inductive ShFun where
  | sll | srl
  deriving DecidableEq, Repr

def ShFun.eval (a : BitVec 32) (shamt : BitVec 5) : ShFun → BitVec 32
  | .sll => a <<< shamt.toNat
  | .srl => a >>> shamt.toNat

inductive IFun where
  | addi | addiu | slti | sltiu | andi | ori | xori
  deriving DecidableEq, Repr

/-- The immediate of a logical operation is extended with zeros. -/
def IFun.extImm (imm : BitVec 16) : IFun → BitVec 32
  | .addi | .addiu | .slti | .sltiu => imm.signExtend 32
  | .andi | .ori | .xori => imm.setWidth 32

/-- The register operation an immediate operation applies. -/
def IFun.rFun : IFun → RFun
  | .addi => .add
  | .addiu => .addu
  | .slti => .slt
  | .sltiu => .sltu
  | .andi => .and
  | .ori => .or
  | .xori => .xor

/-- Branches that compare two registers. -/
inductive BrnFun where
  | beq | bne
  deriving DecidableEq, Repr

def BrnFun.eval (a b : BitVec 32) : BrnFun → Bool
  | .beq => a == b
  | .bne => a != b

/-- Branches that compare one register with zero. -/
inductive ZFun where
  | blez | bgtz | bltz | bgez | bltzal | bgezal
  deriving DecidableEq, Repr

def ZFun.eval (a : BitVec 32) : ZFun → Bool
  | .blez => a.sle 0
  | .bgtz => !a.sle 0
  | .bltz | .bltzal => a.slt 0
  | .bgez | .bgezal => !a.slt 0

def ZFun.links : ZFun → Bool
  | .bltzal | .bgezal => true
  | _ => false

inductive Instr where
  | r (f : RFun) (rd rs rt : BitVec 5)
  | sh (f : ShFun) (rd rt shamt : BitVec 5)
  | i (f : IFun) (rt rs : BitVec 5) (imm : BitVec 16)
  | lw (rt rs : BitVec 5) (imm : BitVec 16)
  | sw (rt rs : BitVec 5) (imm : BitVec 16)
  | b (f : BrnFun) (rs rt : BitVec 5) (imm : BitVec 16)
  | bz (f : ZFun) (rs : BitVec 5) (imm : BitVec 16)
  | j (target : BitVec 26)
  | jal (target : BitVec 26)
  deriving DecidableEq, Repr

/-! ## Meaning -/

/-- A write to a general register; register 0 is not written. -/
def writeReg (regs : BitVec 5 → BitVec 32) (rd : BitVec 5) (value : BitVec 32) :
    BitVec 5 → BitVec 32 :=
  if rd = 0 then regs else Function.update regs rd value

/-- Writing different values makes a difference but for register 0. -/
theorem writeReg_inj_iff (regs : BitVec 5 → BitVec 32) (r : BitVec 5) (v v' : BitVec 32) :
    writeReg regs r v = writeReg regs r v' ↔ r = 0 ∨ v = v' := by
  unfold writeReg
  by_cases hr : r = 0
  · rw [if_pos hr, if_pos hr]
    exact iff_of_true rfl (.inl hr)
  · rw [if_neg hr, if_neg hr, or_iff_right hr]
    exact (Function.update_injective regs r).eq_iff

/-- The address of a load or store, rounded down to a word. -/
def wordAddr (regs : BitVec 5 → BitVec 32) (rs : BitVec 5) (imm : BitVec 16) : BitVec 32 :=
  (regs rs + imm.signExtend 32) &&& 0xFFFFFFFC

/-- The value an instruction writes back, and the register. -/
def Instr.result (load : BitVec 32 → BitVec 32) (pc : BitVec 32)
    (regs : BitVec 5 → BitVec 32) : Instr → Option (BitVec 5 × BitVec 32)
  | .r f rd rs rt => some (rd, f.eval (regs rs) (regs rt))
  | .sh f rd rt shamt => some (rd, f.eval (regs rt) shamt)
  | .i f rt rs imm => some (rt, f.rFun.eval (regs rs) (f.extImm imm))
  | .lw rt rs imm => some (rt, load (wordAddr regs rs imm))
  | .bz f _ _ => if f.links then some (31, pc + 4) else none
  | .jal _ => some (31, pc + 4)
  | .sw .. | .b .. | .j _ => none

def Instr.nextRegs (load : BitVec 32 → BitVec 32) (pc : BitVec 32)
    (regs : BitVec 5 → BitVec 32) (x : Instr) : BitVec 5 → BitVec 32 :=
  match x.result load pc regs with
  | some (rd, value) => writeReg regs rd value
  | none => regs

/-- The word an instruction stores, and its address. -/
def Instr.stored (regs : BitVec 5 → BitVec 32) : Instr → Option (BitVec 32 × BitVec 32)
  | .sw rt rs imm => some (wordAddr regs rs imm, regs rt)
  | _ => none

/-- The address a load reads. -/
def Instr.loaded (regs : BitVec 5 → BitVec 32) : Instr → Option (BitVec 32)
  | .lw _ rs imm => some (wordAddr regs rs imm)
  | _ => none

def branchTarget (pc : BitVec 32) (imm : BitVec 16) : BitVec 32 :=
  let offset : BitVec 32 := imm.signExtend 32 <<< 2
  pc + 4 + offset

def jumpTarget (pc : BitVec 32) (target : BitVec 26) : BitVec 32 :=
  let index : BitVec 32 := target.setWidth 32 <<< 2
  ((pc + 4) &&& 0xF0000000) ||| index

/-- The segment of the next word, the target and two zeros. -/
theorem jumpTarget_eq_append (pc : BitVec 32) (target : BitVec 26) :
    jumpTarget pc target = (pc + 4).extractLsb' 28 4 ++ (target ++ 0#2) :=
  Bits.segment_or_index (pc + 4) target

theorem jumpTarget_toNat (pc : BitVec 32) (target : BitVec 26) :
    (jumpTarget pc target).toNat = (pc + 4).toNat / 2 ^ 28 * 2 ^ 28 + target.toNat * 4 := by
  have hpc := (pc + 4).isLt
  rw [jumpTarget_eq_append, Bits.toNat_append_eq, Bits.toNat_append_eq,
    BitVec.extractLsb'_toNat, Nat.shiftRight_eq_div_pow]
  show (pc + 4).toNat / 2 ^ 28 % 2 ^ 4 * 2 ^ 28 + (target.toNat * 2 ^ 2 + 0) = _
  omega

def Instr.nextPc (pc : BitVec 32) (regs : BitVec 5 → BitVec 32) : Instr → BitVec 32
  | .b f rs rt imm => if f.eval (regs rs) (regs rt) then branchTarget pc imm else pc + 4
  | .bz f rs imm => if f.eval (regs rs) then branchTarget pc imm else pc + 4
  | .j target | .jal target => jumpTarget pc target
  | _ => pc + 4

/-- Only a load looks at memory, and only at its address. -/
theorem Instr.nextRegs_congr {load load' : BitVec 32 → BitVec 32} {pc : BitVec 32}
    {regs : BitVec 5 → BitVec 32} {x : Instr}
    (h : ∀ a ∈ x.loaded regs, load a = load' a) :
    x.nextRegs load pc regs = x.nextRegs load' pc regs := by
  cases x with
  | lw rt rs imm => simp only [nextRegs, result, h _ rfl]
  | r | sh | i | sw | b | bz | j | jal => rfl

/-- Register 0 stays zero. -/
theorem Instr.nextRegs_zero (load : BitVec 32 → BitVec 32) (pc : BitVec 32)
    {regs : BitVec 5 → BitVec 32} (h0 : regs 0 = 0) (x : Instr) :
    x.nextRegs load pc regs 0 = 0 := by
  unfold nextRegs
  cases x.result load pc regs with
  | none => exact h0
  | some rv =>
      show writeReg regs rv.1 rv.2 0 = 0
      unfold writeReg
      split
      next => exact h0
      next hrd => rw [Function.update_of_ne (Ne.symm hrd), h0]

/-! ## Encoding -/

def rFun (funct : BitVec 6) : Option RFun :=
  if funct = 0x20 then some .add
  else if funct = 0x21 then some .addu
  else if funct = 0x22 then some .sub
  else if funct = 0x23 then some .subu
  else if funct = 0x24 then some .and
  else if funct = 0x25 then some .or
  else if funct = 0x26 then some .xor
  else if funct = 0x27 then some .nor
  else if funct = 0x2a then some .slt
  else if funct = 0x2b then some .sltu
  else none

def shFun (funct : BitVec 6) : Option ShFun :=
  if funct = 0x0 then some .sll
  else if funct = 0x2 then some .srl
  else none

def iFun (op : BitVec 6) : Option IFun :=
  if op = 0x8 then some .addi
  else if op = 0x9 then some .addiu
  else if op = 0xa then some .slti
  else if op = 0xb then some .sltiu
  else if op = 0xc then some .andi
  else if op = 0xd then some .ori
  else if op = 0xe then some .xori
  else none

def brnFun (op : BitVec 6) : Option BrnFun :=
  if op = 0x4 then some .beq
  else if op = 0x5 then some .bne
  else none

/-- The opcode, and for opcode 1 the variant in the `rt` field. -/
def zFun (op : BitVec 6) (rt : BitVec 5) : Option ZFun :=
  if op = 0x6 then some .blez
  else if op = 0x7 then some .bgtz
  else if op = 0x1 then
    if rt = 0x00 then some .bltz
    else if rt = 0x01 then some .bgez
    else if rt = 0x10 then some .bltzal
    else if rt = 0x11 then some .bgezal
    else none
  else none

/-- The code of an operation, `rFun` backwards. -/
def RFun.code : RFun → BitVec 6
  | .add => 0x20
  | .addu => 0x21
  | .sub => 0x22
  | .subu => 0x23
  | .and => 0x24
  | .or => 0x25
  | .xor => 0x26
  | .nor => 0x27
  | .slt => 0x2a
  | .sltu => 0x2b

def ShFun.code : ShFun → BitVec 6
  | .sll => 0x0
  | .srl => 0x2

def IFun.code : IFun → BitVec 6
  | .addi => 0x8
  | .addiu => 0x9
  | .slti => 0xa
  | .sltiu => 0xb
  | .andi => 0xc
  | .ori => 0xd
  | .xori => 0xe

def BrnFun.code : BrnFun → BitVec 6
  | .beq => 0x4
  | .bne => 0x5

def ZFun.code : ZFun → BitVec 6
  | .blez => 0x6
  | .bgtz => 0x7
  | .bltz | .bgez | .bltzal | .bgezal => 0x1

/-- The variants of opcode 1. -/
def ZFun.variant : ZFun → Option (BitVec 5)
  | .blez | .bgtz => none
  | .bltz => some 0x00
  | .bgez => some 0x01
  | .bltzal => some 0x10
  | .bgezal => some 0x11

theorem eq_code_of_rFun {fn : BitVec 6} {f : RFun} (h : rFun fn = some f) : fn = f.code := by
  have hrow : ∀ fn : BitVec 6, ∀ f ∈ rFun fn, fn = f.code := by decide
  exact hrow fn f h

theorem eq_code_of_shFun {fn : BitVec 6} {f : ShFun} (h : shFun fn = some f) :
    fn = f.code := by
  have hrow : ∀ fn : BitVec 6, ∀ f ∈ shFun fn, fn = f.code := by decide
  exact hrow fn f h

theorem eq_code_of_iFun {o : BitVec 6} {f : IFun} (h : iFun o = some f) : o = f.code := by
  have hrow : ∀ o : BitVec 6, ∀ f ∈ iFun o, o = f.code := by decide
  exact hrow o f h

theorem eq_code_of_brnFun {o : BitVec 6} {f : BrnFun} (h : brnFun o = some f) :
    o = f.code := by
  have hrow : ∀ o : BitVec 6, ∀ f ∈ brnFun o, o = f.code := by decide
  exact hrow o f h

theorem eq_code_of_zFun {o : BitVec 6} {v : BitVec 5} {f : ZFun} (h : zFun o v = some f) :
    o = f.code ∧ ∀ v' ∈ f.variant, v = v' := by
  unfold zFun at h
  split_ifs at h with h6 h7 h1 hv0 hv1 hv10 hv11
  · obtain rfl := Option.some.inj h
    exact ⟨h6, nofun⟩
  · obtain rfl := Option.some.inj h
    exact ⟨h7, nofun⟩
  · obtain rfl := Option.some.inj h
    exact ⟨h1, fun _ hv => hv0.trans (Option.some.inj hv)⟩
  · obtain rfl := Option.some.inj h
    exact ⟨h1, fun _ hv => hv1.trans (Option.some.inj hv)⟩
  · obtain rfl := Option.some.inj h
    exact ⟨h1, fun _ hv => hv10.trans (Option.some.inj hv)⟩
  · obtain rfl := Option.some.inj h
    exact ⟨h1, fun _ hv => hv11.trans (Option.some.inj hv)⟩

section Fields

variable (w : BitVec 32)

def op : BitVec 6 := w.extractLsb' 26 6
def rs : BitVec 5 := w.extractLsb' 21 5
def rt : BitVec 5 := w.extractLsb' 16 5
def rd : BitVec 5 := w.extractLsb' 11 5
def shamt : BitVec 5 := w.extractLsb' 6 5
def funct : BitVec 6 := w.extractLsb' 0 6
def imm16 : BitVec 16 := w.extractLsb' 0 16
def target : BitVec 26 := w.extractLsb' 0 26

/-- A shift of register 0 to itself by 0 bits, whatever the field it does not use. -/
def IsNop : Prop := op w = 0 ∧ funct w = 0 ∧ shamt w = 0 ∧ rt w = 0 ∧ rd w = 0

instance : Decidable (IsNop w) := inferInstanceAs (Decidable (_ ∧ _))

/-- The instruction a word encodes. -/
def decodeInstr : Option Instr :=
  if op w = 0x0 then
    ((rFun (funct w)).map fun f => .r f (rd w) (rs w) (rt w)).or
      ((shFun (funct w)).map fun f => .sh f (rd w) (rt w) (shamt w))
  else if op w = 0x2 then some (.j (target w))
  else if op w = 0x3 then some (.jal (target w))
  else if op w = 0x23 then some (.lw (rt w) (rs w) (imm16 w))
  else if op w = 0x2b then some (.sw (rt w) (rs w) (imm16 w))
  else
    ((iFun (op w)).map fun f => .i f (rt w) (rs w) (imm16 w)).or
      (((brnFun (op w)).map fun f => .b f (rs w) (rt w) (imm16 w)).or
        ((zFun (op w) (rt w)).map fun f => .bz f (rs w) (imm16 w)))

/-- The encodings one by one, each with its fields. -/
inductive Encodes : Instr → Prop where
  | r {f : RFun} (hop : op w = 0x0) (hf : rFun (funct w) = some f) :
      Encodes (.r f (rd w) (rs w) (rt w))
  | sh {f : ShFun} (hop : op w = 0x0) (hf : shFun (funct w) = some f) :
      Encodes (.sh f (rd w) (rt w) (shamt w))
  | i {f : IFun} (hf : iFun (op w) = some f) : Encodes (.i f (rt w) (rs w) (imm16 w))
  | lw (hop : op w = 0x23) : Encodes (.lw (rt w) (rs w) (imm16 w))
  | sw (hop : op w = 0x2b) : Encodes (.sw (rt w) (rs w) (imm16 w))
  | b {f : BrnFun} (hf : brnFun (op w) = some f) : Encodes (.b f (rs w) (rt w) (imm16 w))
  | bz {f : ZFun} (hf : zFun (op w) (rt w) = some f) : Encodes (.bz f (rs w) (imm16 w))
  | j (hop : op w = 0x2) : Encodes (.j (target w))
  | jal (hop : op w = 0x3) : Encodes (.jal (target w))

variable {w}

theorem encodes_of_decodeInstr {x : Instr} (h : decodeInstr w = some x) :
    Encodes w x := by
  unfold decodeInstr at h
  split at h
  next hop =>
    rcases Option.or_eq_some_iff.mp h with h | ⟨-, h⟩
    · obtain ⟨f, hf, rfl⟩ := Option.map_eq_some_iff.mp h
      exact .r hop hf
    · obtain ⟨f, hf, rfl⟩ := Option.map_eq_some_iff.mp h
      exact .sh hop hf
  next =>
  split at h
  next hop =>
    obtain rfl := Option.some.inj h
    exact .j hop
  next =>
  split at h
  next hop =>
    obtain rfl := Option.some.inj h
    exact .jal hop
  next =>
  split at h
  next hop =>
    obtain rfl := Option.some.inj h
    exact .lw hop
  next =>
  split at h
  next hop =>
    obtain rfl := Option.some.inj h
    exact .sw hop
  next =>
    rcases Option.or_eq_some_iff.mp h with h | ⟨-, h⟩
    · obtain ⟨f, hf, rfl⟩ := Option.map_eq_some_iff.mp h
      exact .i hf
    rcases Option.or_eq_some_iff.mp h with h | ⟨-, h⟩
    · obtain ⟨f, hf, rfl⟩ := Option.map_eq_some_iff.mp h
      exact .b hf
    · obtain ⟨f, hf, rfl⟩ := Option.map_eq_some_iff.mp h
      exact .bz hf

end Fields

end SimpleCpu.Mips.Isa
