import Mathlib.Tactic.IntervalCases
import SimpleCpu.Mips.IssCorrect
import SimpleCpu.Mips.Lockstep

/-!
# The single-cycle processor from the textbook

`top` of `mips-single-cycle_from_textbook`, and one clock of it against one cycle of the
simulator (`clock_agrees_iff`).  The ALU compares without signs, and the data memory has
an entry for every byte address, of which a word takes the first; the simulator compares
with signs and rounds an address down to a word.

The decoders are combinational.  What the source sets to `x`, and a word outside a memory,
counts as zero.
-/

namespace SimpleCpu.Mips.Textbook.SingleCycle

open SimpleCpu.Bits SimpleCpu.Iss SimpleCpu.Mips.Isa SimpleCpu.Mips.Iss

/-! ## Blocks -/

/-- Outputs of `maindec`. -/
structure MainDec where
  regwrite : Bool
  regdst : Bool
  alusrc : Bool
  branch : Bool
  memwrite : Bool
  memtoreg : Bool
  jump : Bool
  aluop : BitVec 2
  invertzero : Bool
  memread : Bool
  deriving DecidableEq, Repr

/-- The assignment of the 11-bit `controls` to the output wires. -/
def MainDec.ofBits (controls : BitVec 11) : MainDec where
  regwrite := controls[10]
  regdst := controls[9]
  alusrc := controls[8]
  branch := controls[7]
  memwrite := controls[6]
  memtoreg := controls[5]
  jump := controls[4]
  aluop := controls.extractLsb' 2 2
  invertzero := controls[1]
  memread := controls[0]

/-- The `controls` that `maindec` assigns; `none` is the `x` of its default. -/
def controlsOf (op : BitVec 6) : Option (BitVec 11) :=
  if op = 0b000000 then some 0b11000001000
  else if op = 0b100011 then some 0b10100100001
  else if op = 0b101011 then some 0b00101000000
  else if op = 0b001000 then some 0b10100000000
  else if op = 0b001101 then some 0b10100001100
  else if op = 0b000100 then some 0b00010000100
  else if op = 0b000101 then some 0b00010000110
  else if op = 0b000010 then some 0b00000010000
  else none

/-- `maindec` -/
def maindec (op : BitVec 6) : MainDec := MainDec.ofBits ((controlsOf op).getD 0)

/-- The inner `case` of `aludec`. -/
def functCode (funct : BitVec 6) : Option (BitVec 3) :=
  if funct = 0b100000 then some 0b010
  else if funct = 0b100010 then some 0b110
  else if funct = 0b100100 then some 0b000
  else if funct = 0b100101 then some 0b001
  else if funct = 0b101010 then some 0b111
  else none

/-- The `alucontrol` that `aludec` assigns.  An `aluop` of `x` is none of the three. -/
def alucontrolOf (aluop : Option (BitVec 2)) (funct : BitVec 6) : Option (BitVec 3) :=
  if aluop = some 0b00 then some 0b010
  else if aluop = some 0b01 then some 0b110
  else if aluop = some 0b11 then some 0b001
  else functCode funct

/-- `aludec` -/
def aludec (funct : BitVec 6) (aluop : BitVec 2) : BitVec 3 :=
  (alucontrolOf (some aluop) funct).getD 0

/-- `ALU`, its result. -/
def aluOut (aluop : BitVec 3) (a b : BitVec 32) : BitVec 32 :=
  if aluop = 0b000 then a &&& b
  else if aluop = 0b001 then a ||| b
  else if aluop = 0b010 then a + b
  else if aluop = 0b110 then a - b
  else if aluop = 0b111 then (BitVec.ofBool (a.ult b)).setWidth 32
  else 0

/-- The last index of `mem` in `data_memory`. -/
abbrev memLast : BitVec 32 := 0x100000

/-- `data_memory`, read port. -/
def dataMemoryRead (mem : BitVec 32 → BitVec 32) (address : BitVec 32) : BitVec 32 :=
  if address ≤ memLast then mem address else 0

/-- `data_memory`, write port. -/
def dataMemoryWrite (mem : BitVec 32 → BitVec 32) (memwrite : Bool)
    (address writeData : BitVec 32) : BitVec 32 → BitVec 32 :=
  if memwrite ∧ address ≤ memLast then Function.update mem address writeData else mem

/-- `registers`, write port. -/
def registersWrite (regFile : BitVec 5 → BitVec 32) (regwrite : Bool) (writeReg : BitVec 5)
    (writeData : BitVec 32) : BitVec 5 → BitVec 32 :=
  if regwrite then Function.update (Function.update regFile writeReg writeData) 0 0
  else regFile

/-- `jump_address_constructor` -/
def jumpAddressConstructor (instruction : BitVec 26) (pcPlus4 : BitVec 4) : BitVec 32 :=
  let index : BitVec 28 := (0#2 ++ instruction) <<< 2
  pcPlus4 ++ index

/-! ## The processor -/

/-- What the program counter, the register file and the data memory hold. -/
structure Top where
  address : BitVec 32
  regFile : BitVec 5 → BitVec 32
  mem : BitVec 32 → BitVec 32

namespace Top

variable (imem : BitVec 32 → BitVec 32) (reset : Bool) (s : Top)

def instruction : BitVec 32 := instrMemReadAt 2048 imem s.address

def control : MainDec := maindec ((s.instruction imem).extractLsb' 26 6)

def aluopToAlu : BitVec 3 :=
  aludec ((s.instruction imem).extractLsb' 0 6) (s.control imem).aluop

def readData1 : BitVec 32 := s.regFile ((s.instruction imem).extractLsb' 21 5)

def readData2 : BitVec 32 := s.regFile ((s.instruction imem).extractLsb' 16 5)

def aluSrcExtend : BitVec 32 :=
  let immediate := (s.instruction imem).extractLsb' 0 16
  if (s.instruction imem).extractLsb' 26 6 = 0b001101 then immediate.setWidth 32
  else immediate.signExtend 32

def aluResult : BitVec 32 :=
  aluOut (s.aluopToAlu imem) (s.readData1 imem)
    (if (s.control imem).alusrc then s.aluSrcExtend imem else s.readData2 imem)

def zero : Bool := s.aluResult imem == 0

def writeReg : BitVec 5 :=
  if (s.control imem).regdst then (s.instruction imem).extractLsb' 11 5
  else (s.instruction imem).extractLsb' 16 5

/-- `memtoreg_mux_output` -/
def writeData : BitVec 32 :=
  if (s.control imem).memtoreg then dataMemoryRead s.mem (s.aluResult imem)
  else s.aluResult imem

def pcPlus4 : BitVec 32 := s.address + 4

def branchAddress : BitVec 32 :=
  let offset : BitVec 32 := ((s.instruction imem).extractLsb' 0 16).signExtend 32 <<< 2
  let taken := (s.control imem).branch && s.zero imem
  if (if (s.control imem).invertzero then !taken else taken) then offset + s.pcPlus4
  else s.pcPlus4

/-- `mux_pc` -/
def newPc : BitVec 32 :=
  if (s.control imem).jump then
    jumpAddressConstructor ((s.instruction imem).extractLsb' 0 26)
      (s.pcPlus4.extractLsb' 28 4)
  else s.branchAddress imem

/-- One clock of `top`. -/
def clock : Top where
  address := if reset then 0 else s.newPc imem
  regFile := registersWrite s.regFile (s.control imem).regwrite (s.writeReg imem)
    (s.writeData imem)
  mem := dataMemoryWrite s.mem (s.control imem).memwrite (s.aluResult imem)
    (s.readData2 imem)

end Top

/-! ## Instructions -/

/-- `add`, `sub`, `and`, `or`, `slt`, `addi`, `ori`, `lw`, `sw`, `beq`, `bne` and `j`. -/
def isImplemented : Instr → Bool
  | .r f .. => f ∈ [RFun.add, .sub, .and, .or, .slt]
  | .i f .. => f ∈ [IFun.addi, .ori]
  | .lw .. | .sw .. | .b .. | .j _ => true
  | _ => false

/-- The outputs of `maindec`. -/
def mainDecOf : Instr → MainDec
  | .r .. => MainDec.ofBits 0b11000001000
  | .i .addi .. => MainDec.ofBits 0b10100000000
  | .i .. => MainDec.ofBits 0b10100001100
  | .lw .. => MainDec.ofBits 0b10100100001
  | .sw .. => MainDec.ofBits 0b00101000000
  | .b .beq .. => MainDec.ofBits 0b00010000100
  | .b .bne .. => MainDec.ofBits 0b00010000110
  | _ => MainDec.ofBits 0b00000010000

/-- What the ALU of this processor computes for an instruction. -/
def aluResultOf (regs : BitVec 5 → BitVec 32) : Instr → BitVec 32
  | .r .slt _ rs rt => (BitVec.ofBool ((regs rs).ult (regs rt))).setWidth 32
  | .r f _ rs rt => f.eval (regs rs) (regs rt)
  | .i f _ rs imm => f.rFun.eval (regs rs) (f.extImm imm)
  | .lw _ rs imm | .sw _ rs imm => regs rs + imm.signExtend 32
  | .b _ rs rt _ => regs rs - regs rt
  | _ => 0

section Decoders

variable {imem : BitVec 32 → BitVec 32} {s : Top} {x : Instr}

theorem control_eq (h : Encodes (s.instruction imem) x) (hc : isImplemented x = true) :
    s.control imem = mainDecOf x := by
  show maindec (op (s.instruction imem)) = _
  generalize s.instruction imem = w at h
  cases h with
  | r hop | lw hop | sw hop | j hop =>
      rw [hop]
      rfl
  | @i f hf =>
      rw [eq_code_of_iFun hf]
      cases f with
      | addi | ori => rfl
      | addiu | slti | sltiu | andi | xori => exact absurd hc Bool.false_ne_true
  | @b f hf =>
      rw [eq_code_of_brnFun hf]
      cases f <;> rfl
  | sh | bz | jal => exact absurd hc nofun

/-- The ALU of an instruction other than `j`. -/
theorem aluResult_eq (h : Encodes (s.instruction imem) x) (hc : isImplemented x = true)
    (hj : (mainDecOf x).jump = false) : s.aluResult imem = aluResultOf s.regFile x := by
  have hctl := control_eq h hc
  unfold Top.aluResult Top.aluopToAlu Top.aluSrcExtend
  rw [hctl]
  show aluOut (aludec (funct (s.instruction imem)) (mainDecOf x).aluop)
    (s.regFile (rs (s.instruction imem)))
    (if (mainDecOf x).alusrc then (if op (s.instruction imem) = 0b001101
        then (imm16 (s.instruction imem)).setWidth 32
        else (imm16 (s.instruction imem)).signExtend 32)
      else s.regFile (rt (s.instruction imem))) = _
  generalize s.instruction imem = w at h
  cases h with
  | @r f hop hf =>
      rw [eq_code_of_rFun hf]
      cases f with
      | add | sub | and | or | slt => rfl
      | addu | subu | xor | nor | sltu => exact absurd hc Bool.false_ne_true
  | @i f hf =>
      rw [eq_code_of_iFun hf]
      cases f with
      | addi | ori => rfl
      | addiu | slti | sltiu | andi | xori => exact absurd hc Bool.false_ne_true
  | lw hop | sw hop =>
      rw [hop]
      rfl
  | @b f hf =>
      rw [eq_code_of_brnFun hf]
      cases f <;> rfl
  | j =>
      have hj' : true = false := hj
      exact absurd hj' nofun
  | sh | bz | jal => exact absurd hc nofun

end Decoders

/-! ## One clock and one cycle -/

/-- The aligned words of the data that both sides have are the same. -/
def SameData (mem : BitVec 32 → BitVec 32) (sim : Sim) : Prop :=
  ∀ addr : BitVec 32, addr &&& 3 = 0 → 0x2000 ≤ addr → addr ≤ memLast →
    sim.memRead addr = mem addr

/-- `top` and the simulator hold the same. -/
structure Agrees (s : Top) (sim : Sim) : Prop where
  next : sim.next = sim.current
  pc : sim.current.pc = s.address
  regs : sim.current.regs = s.regFile
  data : SameData s.mem sim

/-- The address of a load or a store before it is rounded. -/
def byteAddr (regs : BitVec 5 → BitVec 32) (rs : BitVec 5) (imm : BitVec 16) : BitVec 32 :=
  regs rs + imm.signExtend 32

/-- Loads and stores stay in the data that both sides have. -/
def InData (regs : BitVec 5 → BitVec 32) : Instr → Prop
  | .lw _ rs imm | .sw _ rs imm =>
      0x2000 ≤ byteAddr regs rs imm ∧ byteAddr regs rs imm ≤ memLast
  | _ => True

/-- What is written to the registers is right: register 0 is zero if anything is written,
the operands of `slt` have the same sign, and the entry that `lw` reads is the word. -/
def WritesSame (s : Top) : Instr → Prop
  | .r .slt rd rs rt =>
      s.regFile 0 = 0 ∧ (rd = 0 ∨ (s.regFile rs).msb = (s.regFile rt).msb)
  | .r .. | .i .. => s.regFile 0 = 0
  | .lw rt rs imm =>
      s.regFile 0 = 0 ∧
        (rt = 0 ∨ s.mem (byteAddr s.regFile rs imm) = s.mem (wordAddr s.regFile rs imm))
  | _ => True

/-- What `sw` stores is right: the address is that of a word, or the word there has the
value already. -/
def StoresSame (s : Top) : Instr → Prop
  | .sw rt rs imm =>
      byteAddr s.regFile rs imm = wordAddr s.regFile rs imm ∨
        s.mem (wordAddr s.regFile rs imm) = s.regFile rt
  | _ => True

/-- The data memory behind an instruction. -/
def memAfter (s : Top) : Instr → BitVec 32 → BitVec 32
  | .sw rt rs imm => Function.update s.mem (byteAddr s.regFile rs imm) (s.regFile rt)
  | _ => s.mem

/-- The concatenation of `jump_address_constructor`. -/
theorem jumpAddressConstructor_eq (pc : BitVec 32) (t : BitVec 26) :
    jumpAddressConstructor t ((pc + 4).extractLsb' 28 4) = jumpTarget pc t := by
  have hindex : (0#2 ++ t) <<< 2 = t ++ 0#2 := by
    apply BitVec.eq_of_toNat_eq
    rw [BitVec.toNat_shiftLeft, toNat_append_eq, toNat_append_eq, Nat.shiftLeft_eq]
    have ht := t.isLt
    simp
    omega
  rw [jumpTarget_eq_append]
  exact congrArg ((pc + 4).extractLsb' 28 4 ++ ·) hindex

/-- Only the first byte address of a word is the address of the word. -/
theorem wordAddr_le (regs : BitVec 5 → BitVec 32) (rs : BitVec 5) (imm : BitVec 16) :
    (wordAddr regs rs imm).toNat =
      (byteAddr regs rs imm).toNat - (byteAddr regs rs imm).toNat % 4 :=
  and_not_3_toNat _

theorem wordAddr_inData {regs : BitVec 5 → BitVec 32} {rs : BitVec 5} {imm : BitVec 16}
    (hlow : 0x2000 ≤ byteAddr regs rs imm) (hhigh : byteAddr regs rs imm ≤ memLast) :
    wordAddr regs rs imm &&& 3 = 0 ∧ 0x2000 ≤ wordAddr regs rs imm ∧
      wordAddr regs rs imm ≤ memLast := by
  have hlow' : 0x2000 ≤ (byteAddr regs rs imm).toNat := hlow
  have hhigh' : (byteAddr regs rs imm).toNat ≤ 0x100000 := hhigh
  have hnat := wordAddr_le regs rs imm
  refine ⟨and_not_3_aligned _, ?_, ?_⟩
  · show 0x2000 ≤ (wordAddr regs rs imm).toNat
    omega
  · show (wordAddr regs rs imm).toNat ≤ 0x100000
    omega

/-- The write port clears register 0 with every write. -/
theorem registersWrite_eq_iff {regs : BitVec 5 → BitVec 32} {rd : BitVec 5}
    {v v' : BitVec 32} :
    registersWrite regs true rd v = Isa.writeReg regs rd v' ↔
      regs 0 = 0 ∧ (rd = 0 ∨ v = v') := by
  show Function.update (Function.update regs rd v) 0 0 = _ ↔ _
  unfold Isa.writeReg
  constructor
  · intro h
    have h0 := congrFun h 0
    rw [Function.update_self] at h0
    by_cases hrd : rd = 0
    · rw [if_pos hrd] at h0
      exact ⟨h0.symm, Or.inl hrd⟩
    · rw [if_neg hrd, Function.update_of_ne (Ne.symm hrd)] at h0
      have hv := congrFun h rd
      rw [if_neg hrd, Function.update_of_ne hrd, Function.update_self,
        Function.update_self] at hv
      exact ⟨h0.symm, Or.inr hv⟩
  · rintro ⟨h0, hv⟩
    funext r
    by_cases hrd : rd = 0
    · rw [if_pos hrd, hrd, Function.update_idem]
      by_cases hr : r = 0
      · rw [hr, Function.update_self, h0]
      · rw [Function.update_of_ne hr]
    · obtain rfl := hv.resolve_left hrd
      rw [if_neg hrd]
      by_cases hr : r = 0
      · rw [hr, Function.update_self, Function.update_of_ne (Ne.symm hrd), h0]
      · rw [Function.update_of_ne hr]

theorem ofBool_setWidth_inj {a b : Bool} :
    (BitVec.ofBool a).setWidth 32 = (BitVec.ofBool b).setWidth 32 ↔ a = b := by
  cases a <;> cases b <;> decide

/-- Comparing without signs is right for operands of one sign. -/
theorem ult_eq_slt_iff (a b : BitVec 32) : a.ult b = a.slt b ↔ a.msb = b.msb := by
  rw [BitVec.slt_eq_ult]
  cases a.msb <;> cases b.msb <;> cases a.ult b <;> decide

theorem sub_beq_zero (a b : BitVec 32) : (a - b == 0) = (a == b) := by
  by_cases hab : a = b
  · simp [hab]
  · have hsub : a - b ≠ 0 := fun h0 => hab (by bv_omega)
    rw [beq_eq_false_iff_ne.mpr hsub, beq_eq_false_iff_ne.mpr hab]

section Clock

variable {imem : BitVec 32 → BitVec 32} {s : Top} {sim : Sim} {x : Instr}

theorem clock_address (h : Encodes (s.instruction imem) x) (hc : isImplemented x = true) :
    (s.clock imem false).address = x.nextPc s.address s.regFile := by
  have hctl := control_eq h hc
  have halu := aluResult_eq h hc
  show s.newPc imem = _
  unfold Top.newPc Top.branchAddress Top.zero
  rw [hctl]
  generalize s.instruction imem = w at h
  cases h with
  | r | lw | sw => rfl
  | @i f hf => cases f <;> rfl
  | j => exact jumpAddressConstructor_eq _ _
  | @b f hf =>
      rw [halu (by cases f <;> rfl)]
      have hzero : (aluResultOf s.regFile (.b f (rs w) (rt w) (imm16 w)) == 0) =
          (s.regFile (rs w) == s.regFile (rt w)) := sub_beq_zero _ _
      have htarget : (imm16 w).signExtend 32 <<< 2 + s.pcPlus4 =
          branchTarget s.address (imm16 w) := BitVec.add_comm _ _
      rw [hzero]
      show (if _ then _ else _) = (if _ then branchTarget s.address (imm16 w) else _)
      rw [← htarget]
      cases f <;> rfl
  | sh | bz | jal => exact absurd hc nofun

/-- Only a store changes the memory. -/
theorem clock_mem (h : Encodes (s.instruction imem) x) (hc : isImplemented x = true)
    (hin : InData s.regFile x) :
    (s.clock imem false).mem = memAfter s x := by
  have hctl := control_eq h hc
  have halu := aluResult_eq h hc
  show dataMemoryWrite s.mem (s.control imem).memwrite (s.aluResult imem)
    (s.regFile (rt (s.instruction imem))) = _
  rw [hctl]
  generalize s.instruction imem = w at h
  cases h with
  | sw =>
      rw [halu rfl]
      exact if_pos ⟨rfl, hin.2⟩
  | r | lw | j => exact if_neg nofun
  | @i f hf => cases f <;> exact if_neg nofun
  | @b f hf => cases f <;> exact if_neg nofun
  | sh | bz | jal => exact absurd hc nofun

theorem clock_regFile_iff (h : Encodes (s.instruction imem) x) (hc : isImplemented x = true)
    (hin : InData s.regFile x) (hdata : SameData s.mem sim) :
    (s.clock imem false).regFile = x.nextRegs sim.memRead s.address s.regFile ↔
      WritesSame s x := by
  have hctl := control_eq h hc
  have halu := aluResult_eq h hc
  show registersWrite s.regFile (s.control imem).regwrite (s.writeReg imem)
    (s.writeData imem) = _ ↔ _
  unfold Top.writeReg Top.writeData
  rw [hctl]
  generalize s.instruction imem = w at h
  cases h with
  | @r f hop hf =>
      rw [halu rfl]
      refine registersWrite_eq_iff.trans ?_
      cases f with
      | slt =>
          show _ ∧ (rd w = 0 ∨ (BitVec.ofBool _).setWidth 32 = (BitVec.ofBool _).setWidth 32) ↔ _
          rw [ofBool_setWidth_inj, ult_eq_slt_iff]
          rfl
      | add | sub | and | or => exact and_iff_left (Or.inr rfl)
      | addu | subu | xor | nor | sltu => simp [isImplemented] at hc
  | @i f hf =>
      rw [halu (by cases f <;> rfl)]
      cases f with
      | addi | ori => exact registersWrite_eq_iff.trans (and_iff_left (Or.inr rfl))
      | addiu | slti | sltiu | andi | xori => simp [isImplemented] at hc
  | lw =>
      obtain ⟨hlow, hhigh⟩ := hin
      obtain ⟨haligned, hlow', hhigh'⟩ := wordAddr_inData hlow hhigh
      rw [halu rfl]
      refine registersWrite_eq_iff.trans ?_
      have hread : dataMemoryRead s.mem (byteAddr s.regFile (rs w) (imm16 w)) =
          s.mem (byteAddr s.regFile (rs w) (imm16 w)) := if_pos hhigh
      show _ ∧ (_ ∨ dataMemoryRead s.mem (byteAddr s.regFile (rs w) (imm16 w)) =
        sim.memRead (wordAddr s.regFile (rs w) (imm16 w))) ↔ _
      rw [hread, hdata _ haligned hlow' hhigh']
      rfl
  | sw | j => exact iff_of_true rfl trivial
  | @b f hf => cases f <;> exact iff_of_true rfl trivial
  | sh | bz | jal => exact absurd hc nofun

/-- The memories agree after a store exactly if rounding its address does not matter. -/
theorem sameData_store_iff {rt rs : BitVec 5} {imm : BitVec 16}
    (hin : InData s.regFile (.sw rt rs imm)) (hdata : SameData s.mem sim) {sim' : Sim}
    (hmem : sim'.mem = memWrite32 memRegions sim.mem (wordAddr s.regFile rs imm)
      (s.regFile rt)) :
    SameData (Function.update s.mem (byteAddr s.regFile rs imm) (s.regFile rt)) sim' ↔
      StoresSame s (.sw rt rs imm) := by
  obtain ⟨hlow, hhigh⟩ := hin
  obtain ⟨haligned, hlow', hhigh'⟩ := wordAddr_inData hlow hhigh
  have hread : ∀ a : BitVec 32, a &&& 3 = 0 → sim'.memRead a =
      if a = wordAddr s.regFile rs imm then s.regFile rt else sim.memRead a := by
    intro a ha
    have hend : wordAddr s.regFile rs imm < dataEnd := by
      have hle : (wordAddr s.regFile rs imm).toNat ≤ 0x100000 := hhigh'
      show (wordAddr s.regFile rs imm).toNat < 0x102000
      omega
    unfold Sim.memRead
    rw [hmem]
    exact memRead32_memWrite32_aligned haligned ha (findRegion_data hlow' hend)
  show _ ↔ byteAddr s.regFile rs imm = wordAddr s.regFile rs imm ∨ _
  constructor
  · intro hsame
    by_cases heq : byteAddr s.regFile rs imm = wordAddr s.regFile rs imm
    · exact Or.inl heq
    · have hword := hsame _ haligned hlow' hhigh'
      rw [hread _ haligned, if_pos rfl, Function.update_of_ne (Ne.symm heq)] at hword
      exact Or.inr hword.symm
  · intro hstores a ha halow hahigh
    rw [hread a ha]
    by_cases haw : a = wordAddr s.regFile rs imm
    · rw [if_pos haw, haw]
      rcases hstores with heq | hold
      · rw [heq, Function.update_self]
      · by_cases heq : wordAddr s.regFile rs imm = byteAddr s.regFile rs imm
        · rw [heq, Function.update_self]
        · rw [Function.update_of_ne heq, hold]
    · have hab : a ≠ byteAddr s.regFile rs imm := by
        rintro rfl
        exact haw (and_not_3_of_aligned ha).symm
      rw [if_neg haw, Function.update_of_ne hab]
      exact hdata a ha halow hahigh

/-- The memory of the simulator behind an instruction against that of `top`. -/
theorem sameData_follow_iff (hin : InData s.regFile x) (h : Agrees s sim) :
    SameData (memAfter s x) (sim.follow x) ↔ StoresSame s x := by
  cases x with
  | sw rt rs imm =>
      refine sameData_store_iff hin h.data ?_
      rw [← h.regs]
      rfl
  | r | sh | i | lw | b | bz | j | jal => exact iff_of_true h.data trivial

end Clock

/-- From related states, and on the same implemented instruction, one clock of `top` and one
cycle of the simulator lead to related states again exactly if what is written and what is
stored is right. -/
theorem clock_agrees_iff {imem : BitVec 32 → BitVec 32} {s : Top} {sim : Sim} {x : Instr}
    (h : Agrees s sim) (hfetch : sim.memRead s.address = s.instruction imem)
    (hx : decodeInstr (s.instruction imem) = some x) (hc : isImplemented x = true)
    (hin : InData s.regFile x) :
    Agrees (s.clock imem false) (cycle sim) ↔ WritesSame s x ∧ StoresSame s x := by
  have henc := encodes_of_decodeInstr hx
  have hcycle : cycle sim = sim.follow x := cycle_eq h.next (by rw [h.pc, hfetch, hx])
  have hregs : (sim.follow x).current.regs =
      x.nextRegs sim.memRead s.address s.regFile := by
    rw [← h.pc, ← h.regs]
    rfl
  rw [hcycle, ← clock_regFile_iff henc hc hin h.data, ← sameData_follow_iff hin h,
    ← clock_mem henc hc hin, ← hregs]
  constructor
  · intro hnext
    exact ⟨hnext.regs.symm, hnext.data⟩
  · rintro ⟨hregs', hdata⟩
    refine ⟨rfl, ?_, hregs'.symm, hdata⟩
    rw [clock_address henc hc]
    show x.nextPc sim.current.pc sim.current.regs = _
    rw [h.pc, h.regs]

/-! ## Fixed steps -/

/-- A simulator that is about to execute `word`, with the same value in all data words. -/
def simAt (word value : BitVec 32) (regs : BitVec 5 → BitVec 32) : Sim where
  current := { pc := 0, regs := regs, hi := 0, lo := 0 }
  next := { pc := 0, regs := regs, hi := 0, lo := 0 }
  mem := Memory.ofWords fun i _ => if i = 0 then word else value
  runBit := true
  instrOpcode := 0
  trapped := false

/-- `top` in the same state. -/
def topAt (value : BitVec 32) (regs : BitVec 5 → BitVec 32) : Top where
  address := 0
  regFile := regs
  mem := fun _ => value

theorem agrees_at (word value : BitVec 32) (regs : BitVec 5 → BitVec 32) :
    Agrees (topAt value regs) (simAt word value regs) where
  next := rfl
  pc := rfl
  regs := rfl
  data addr ha hlow hhigh := by
    have hlow' : 0x2000 ≤ addr.toNat := hlow
    have hhigh' : addr.toNat ≤ 0x100000 := hhigh
    have hend : addr < dataEnd := by
      show addr.toNat < 0x102000
      omega
    have hoff : (addr - 0x2000).toNat = addr.toNat - 0x2000 := by
      rw [BitVec.toNat_sub]
      simp
      omega
    rw [and_3_eq_zero_iff] at ha
    unfold Sim.memRead
    exact memRead32_ofWords _ (findRegion_data hlow hend)
      (by rw [and_3_eq_zero_iff, hoff]; omega)

/-- `SLT r3, r1, r2` for -1 and 1: the simulator sets `r3`, `top` clears it. -/
theorem slt_disagrees :
    ¬ ∀ (imem : BitVec 32 → BitVec 32) (s : Top) (sim : Sim) (x : Instr), Agrees s sim →
      sim.memRead s.address = s.instruction imem →
      decodeInstr (s.instruction imem) = some x → isImplemented x = true →
      InData s.regFile x → s.regFile 0 = 0 → Agrees (s.clock imem false) (cycle sim) := by
  intro hall
  have hnext := hall (fun _ => 0x0022182A)
    (topAt 0xefefefef fun r => if r = 1 then -1 else if r = 2 then 1 else 0)
    (simAt 0x0022182A 0xefefefef fun r => if r = 1 then -1 else if r = 2 then 1 else 0)
    (.r .slt 3 1 2) (agrees_at _ _ _) (by decide +kernel) (by decide) rfl trivial rfl
  exact absurd (congrFun hnext.regs 3) (by decide +kernel)

/-- `SW r1, 1(r2)` between words that hold the value already. -/
theorem clock_agrees_iff_store :
    let s := topAt 5 fun r => if r = 1 then 5 else if r = 2 then 0x2000 else 0
    Agrees (s.clock (fun _ => 0xAC410001) false)
      (cycle (simAt 0xAC410001 5 s.regFile)) :=
  (clock_agrees_iff (x := .sw 1 2 1) (agrees_at _ _ _) (by decide +kernel) (by decide) rfl
    ⟨by decide, by decide⟩).mpr ⟨trivial, Or.inr rfl⟩

end SimpleCpu.Mips.Textbook.SingleCycle
