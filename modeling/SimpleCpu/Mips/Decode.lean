import SimpleCpu.Mips.Isa

/-!
# Decoder and control of the MIPS datapaths

`decode` and `control`, of which the pipeline and the single-cycle processor have one
copy each.  The copies differ in one word each: the pipeline takes the all-zero shift
for no R-type instruction, and the single-cycle table has a default row two digits
short.  What they share is written once, with the difference as an argument.
-/

namespace SimpleCpu.Mips

/-! ## `mips_instr_defines.v` -/

namespace Defines

abbrev ADD : BitVec 6 := 0b10_0000
abbrev ADDU : BitVec 6 := 0b10_0001
abbrev ADDI : BitVec 6 := 0b00_1000
abbrev ADDIU : BitVec 6 := 0b00_1001
abbrev AND : BitVec 6 := 0b10_0100
abbrev ANDI : BitVec 6 := 0b00_1100
abbrev BEQ : BitVec 6 := 0b00_0100
abbrev BGTZ : BitVec 6 := 0b00_0111
abbrev BLEZ : BitVec 6 := 0b00_0110
abbrev BNE : BitVec 6 := 0b00_0101
abbrev BVAR : BitVec 6 := 0b00_0001
abbrev BLTZ : BitVec 5 := 0b0_0000
abbrev BGEZ : BitVec 5 := 0b0_0001
abbrev BLTZAL : BitVec 5 := 0b1_0000
abbrev BGEZAL : BitVec 5 := 0b1_0001
abbrev DIV : BitVec 6 := 0b01_1010
abbrev DIVU : BitVec 6 := 0b01_1011
abbrev J : BitVec 6 := 0b00_0010
abbrev JAL : BitVec 6 := 0b00_0011
abbrev JALR : BitVec 6 := 0b00_1001
abbrev JR : BitVec 6 := 0b00_1000
abbrev LB : BitVec 6 := 0b10_0000
abbrev LBU : BitVec 6 := 0b10_0100
abbrev LH : BitVec 6 := 0b10_0001
abbrev LHU : BitVec 6 := 0b10_0101
abbrev LUI : BitVec 6 := 0b00_1111
abbrev LW : BitVec 6 := 0b10_0011
abbrev MFHI : BitVec 6 := 0b01_0000
abbrev MFLO : BitVec 6 := 0b01_0010
abbrev MTHI : BitVec 6 := 0b01_0001
abbrev MTLO : BitVec 6 := 0b01_0011
abbrev MULT : BitVec 6 := 0b01_1000
abbrev MULTU : BitVec 6 := 0b01_1001
abbrev NOR : BitVec 6 := 0b10_0111
abbrev OR : BitVec 6 := 0b10_0101
abbrev ORI : BitVec 6 := 0b00_1101
abbrev SB : BitVec 6 := 0b10_1000
abbrev SH : BitVec 6 := 0b10_1001
abbrev SW : BitVec 6 := 0b10_1011
abbrev SLL : BitVec 6 := 0b00_0000
abbrev SLLV : BitVec 6 := 0b00_0100
abbrev SLT : BitVec 6 := 0b10_1010
abbrev SLTI : BitVec 6 := 0b00_1010
abbrev SLTIU : BitVec 6 := 0b00_1011
abbrev SLTU : BitVec 6 := 0b10_1011
abbrev SRA : BitVec 6 := 0b00_0011
abbrev SRAV : BitVec 6 := 0b00_0111
abbrev SRL : BitVec 6 := 0b00_0010
abbrev SRLV : BitVec 6 := 0b00_0110
abbrev SUB : BitVec 6 := 0b10_0010
abbrev SUBU : BitVec 6 := 0b10_0011
abbrev SYSCALL : BitVec 6 := 0b00_1100
abbrev XOR : BitVec 6 := 0b10_0110
abbrev XORI : BitVec 6 := 0b00_1110

end Defines

open Defines

/-! ## Decoder -/

/-- Outputs of `decode`. -/
structure Decode where
  rt : BitVec 5
  rs : BitVec 5
  rd : BitVec 5
  op : BitVec 6
  funct : BitVec 6
  shamt : BitVec 5
  target : BitVec 26
  imm : BitVec 16
  isRType : Bool
  isIType : Bool
  isJType : Bool
  useLinkReg : Bool
  deriving DecidableEq, Repr

/-- `decode`, given its `is_r_type_dec`. -/
def decodeFields (instr : BitVec 32) (isRType : Bool) : Decode :=
  let op := instr.extractLsb' 26 6
  let rt := instr.extractLsb' 16 5
  let funct := instr.extractLsb' 0 6
  let isJType := op == J || op == JAL
  { rt := rt
    rs := instr.extractLsb' 21 5
    rd := instr.extractLsb' 11 5
    op := op
    funct := funct
    shamt := instr.extractLsb' 6 5
    target := instr.extractLsb' 0 26
    imm := instr.extractLsb' 0 16
    isRType := isRType
    isIType := op != 0 && (op != J && op != JAL)
    isJType := isJType
    useLinkReg := (op == BVAR && (rt == BLTZAL || rt == BGEZAL)) ||
      (isRType && funct == JALR) || (isJType && op == JAL) }

/-- `sign_imm_dec` -/
def Decode.signImm (d : Decode) (signExt : Bool) : BitVec 32 :=
  if signExt then d.imm.signExtend 32 else d.imm.setWidth 32

/-- `decode` of the pipeline. -/
def decode (instr : BitVec 32) : Decode :=
  decodeFields instr
    (instr.extractLsb' 26 6 == 0 &&
      !(instr.extractLsb' 0 6 == 0 && instr.extractLsb' 6 5 == 0 &&
        instr.extractLsb' 16 5 == 0 && instr.extractLsb' 11 5 == 0))

/-- `is_lw_dec` -/
def Decode.isLw (d : Decode) : Bool := d.isIType && d.op == LW

/-- `decode` of the single-cycle processor. -/
def decodeSingleCycle (instr : BitVec 32) : Decode :=
  decodeFields instr (instr.extractLsb' 26 6 == 0)

/-! ## Control -/

/-- Outputs of `control`. -/
structure Controls where
  regSrc : Bool
  regDst : Bool
  jump : Bool
  branch : Bool
  memRead : Bool
  memToReg : Bool
  aluOp : BitVec 6
  memWr : Bool
  aluSrc : BitVec 3
  regWr : Bool
  signExt : Bool
  deriving DecidableEq, Repr

/-- The assignment of the 18-bit `controls` to the output wires. -/
def Controls.ofBits (controls : BitVec 18) : Controls where
  regSrc := controls[17]
  regDst := controls[16]
  jump := controls[15]
  branch := controls[14]
  memRead := controls[13]
  memToReg := controls[12]
  aluOp := controls.extractLsb' 6 6
  memWr := controls[5]
  aluSrc := controls.extractLsb' 2 3
  regWr := controls[1]
  signExt := controls[0]

/-- The inner table, by `funct`. -/
def controlR (funct : BitVec 6) : BitVec 18 :=
  if funct = ADD then 0b0_1_0_0_0_0_000000_0_000_1_0
  else if funct = ADDU then 0b0_1_0_0_0_0_000000_0_000_1_0
  else if funct = AND then 0b0_1_0_0_0_0_010000_0_000_1_0
  else if funct = DIV then 0b0_1_0_0_0_0_000000_0_000_1_0
  else if funct = DIVU then 0b0_1_0_0_0_0_000000_0_000_1_0
  else if funct = JALR then 0b0_1_0_0_0_0_000000_0_000_1_0
  else if funct = JR then 0b0_1_0_0_0_0_000000_0_000_1_0
  else if funct = MFHI then 0b0_1_0_0_0_0_000000_0_000_1_0
  else if funct = MFLO then 0b0_1_0_0_0_0_000000_0_000_1_0
  else if funct = MTHI then 0b0_1_0_0_0_0_000000_0_000_1_0
  else if funct = MTLO then 0b0_1_0_0_0_0_000000_0_000_1_0
  else if funct = MULT then 0b0_1_0_0_0_0_000000_0_000_1_0
  else if funct = MULTU then 0b0_1_0_0_0_0_000000_0_000_1_0
  else if funct = NOR then 0b0_1_0_0_0_0_011000_0_000_1_0
  else if funct = OR then 0b0_1_0_0_0_0_001000_0_000_1_0
  else if funct = SLLV then 0b1_1_0_0_0_0_000010_0_010_1_0
  else if funct = SLT then 0b0_1_0_0_0_0_101001_0_000_1_0
  else if funct = SLTU then 0b0_1_0_0_0_0_110001_0_000_1_0
  else if funct = SRA then 0b1_1_0_0_0_0_000110_0_010_1_0
  else if funct = SRAV then 0b1_1_0_0_0_0_000110_0_010_1_0
  else if funct = SRL then 0b1_1_0_0_0_0_000100_0_010_1_0
  else if funct = SRLV then 0b1_1_0_0_0_0_000100_0_010_1_0
  else if funct = SUB then 0b0_1_0_0_0_0_000001_0_000_1_0
  else if funct = SUBU then 0b0_1_0_0_0_0_000001_0_000_1_0
  else if funct = SYSCALL then 0b0_1_0_0_0_0_000000_0_000_0_0
  else if funct = XOR then 0b0_1_0_0_0_0_100000_0_000_1_0
  else if funct = SLL then 0b1_1_0_0_0_0_000010_0_010_1_0
  else 0b0_1_0_0_0_0_000000_0_000_1_0

/-- The rows of the outer table with an opcode of their own. -/
def controlRow (op : BitVec 6) : Option (BitVec 18) :=
  if op = ADDI then some 0b0_0_0_0_0_0_000000_0_001_1_1
  else if op = ADDIU then some 0b0_0_0_0_0_0_000000_0_001_1_1
  else if op = ANDI then some 0b0_0_0_0_0_0_010000_0_001_1_0
  else if op = SLTI then some 0b0_0_0_0_0_0_101001_0_001_1_1
  else if op = SLTIU then some 0b0_0_0_0_0_0_110001_0_001_1_1
  else if op = ORI then some 0b0_0_0_0_0_0_001000_0_001_1_0
  else if op = XORI then some 0b0_0_0_0_0_0_100000_0_001_1_0
  else if op = BEQ then some 0b0_0_0_1_0_0_000001_0_000_0_1
  else if op = BVAR then some 0b0_0_0_1_0_0_000001_0_100_0_1
  else if op = BGTZ then some 0b0_0_0_1_0_0_000000_0_100_0_1
  else if op = BLEZ then some 0b0_0_0_1_0_0_000000_0_100_0_1
  else if op = BNE then some 0b0_0_0_1_0_0_000001_0_000_0_1
  else if op = LB then some 0b0_0_0_0_1_1_000000_0_001_1_1
  else if op = LBU then some 0b0_0_0_0_1_1_000000_0_001_1_1
  else if op = LH then some 0b0_0_0_0_1_1_000000_0_001_1_1
  else if op = LHU then some 0b0_0_0_0_1_1_000000_0_001_1_1
  else if op = LUI then some 0b0_0_0_0_1_1_000000_0_001_1_1
  else if op = LW then some 0b0_0_0_0_1_1_000000_0_001_1_1
  else if op = SB then some 0b0_0_0_0_0_0_000000_1_001_0_1
  else if op = SH then some 0b0_0_0_0_0_0_000000_1_001_0_1
  else if op = SW then some 0b0_0_0_0_0_0_000000_1_001_0_1
  else if op = J then some 0b0_0_1_0_0_0_000000_0_001_0_1
  else if op = JAL then some 0b0_0_1_0_0_0_000000_0_001_1_1
  else none

/-- The outer table, given its default row. -/
def controlTable (other : BitVec 18) (op funct : BitVec 6) : BitVec 18 :=
  if op = 0b00000 then controlR funct else (controlRow op).getD other

/-- `control` of the pipeline. -/
def control (op funct : BitVec 6) : Controls :=
  Controls.ofBits (controlTable 0b0_1_0_0_0_0_000000_0_000_0_0 op funct)

/-- `control` of the single-cycle processor.  Its default row has sixteen digits. -/
def controlSingleCycle (op funct : BitVec 6) : Controls :=
  Controls.ofBits (controlTable 0b0_1_0_0_0_0_000000_0_0_0_0 op funct)

/-! ## Muxes around the register file -/

/-- `rd_top`, `rd_iss_ex` -/
def Decode.writeReg (d : Decode) (c : Controls) : BitVec 5 :=
  if d.useLinkReg then 0x1F else if c.regDst then d.rd else d.rt

/-- `rs_top`, `rs_iss_ex` -/
def Decode.readReg1 (d : Decode) (c : Controls) : BitVec 5 :=
  if c.regSrc then d.rt else d.rs

/-- `next_jmp_pc`.  The shift inside the concatenation keeps the width of its operand. -/
def nextJmpPc (nextSeqPc instr : BitVec 32) : BitVec 32 :=
  (nextSeqPc.extractLsb' 28 4 ++ (instr.extractLsb' 0 26 <<< 2)).setWidth 32

/-- Second operand of the ALU, by `alu_src`. -/
def aluOperand2 (aluSrc : BitVec 3) (shamt : BitVec 5) (signImm rDataP2 : BitVec 32) :
    BitVec 32 :=
  if aluSrc[2] then 0
  else if aluSrc[1] then shamt.setWidth 32
  else if aluSrc[0] then signImm
  else rDataP2

/-- `branch_taken_ex`, and the condition of `next_brn_eq_pc_top`. -/
def branchTaken (branch : Bool) (op : BitVec 6) (rt : BitVec 5) (z n : Bool) : Bool :=
  (branch && op == BEQ && z) ||
    (branch && (op == BVAR && (rt == BGEZ || rt == BGEZAL)) && (!n || z)) ||
    (branch && op == BLEZ && (n || z)) ||
    (branch && op == BGTZ && !(n || z)) ||
    (branch && (op == BVAR && (rt == BLTZ || rt == BLTZAL)) && (n && !z)) ||
    (branch && op == BNE && !z)

/-- `wr_data_rf` -/
def wrDataRf (useLinkReg : Bool) (nextSeqPc : BitVec 32) (rd : BitVec 5) (memToReg : Bool)
    (readData resAlu : BitVec 32) : BitVec 32 :=
  if useLinkReg then nextSeqPc
  else if rd ≠ 0 then if memToReg then readData else resAlu
  else 0

end SimpleCpu.Mips
