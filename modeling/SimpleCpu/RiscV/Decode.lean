import Mathlib.Tactic.IntervalCases

/-!
# Decoder and control of the RISC-V pipeline

`decode`, `control`, `sign_extnd_12bit` and `sign_extnd_20bit`.  The control table
is kept as the source has it, one 17-bit word a row.
-/

namespace SimpleCpu.RiscV

/-! ## `riscv_instr_defines.v` -/

abbrev R_TYPE : BitVec 7 := 0x33
abbrev I_TYPE_0 : BitVec 7 := 0x03
abbrev I_TYPE_1 : BitVec 7 := 0x13
abbrev I_TYPE_2 : BitVec 7 := 0x67
abbrev S_TYPE : BitVec 7 := 0x23
abbrev B_TYPE : BitVec 7 := 0x63
abbrev J_TYPE : BitVec 7 := 0x6F
/-- The six-bit literal `6'h27`, compared with the opcode. -/
abbrev AUIPC : BitVec 7 := 0x27
abbrev LUI : BitVec 7 := 0x37

/-! ## Decoder -/

/-- Outputs of `decode`. -/
structure Decode where
  rs1 : BitVec 5
  rs2 : BitVec 5
  rd : BitVec 5
  op : BitVec 7
  funct3 : BitVec 3
  funct7 : BitVec 7
  isRType : Bool
  isIType : Bool
  isSType : Bool
  isBType : Bool
  isUType : Bool
  isJType : Bool
  iTypeImm : BitVec 12
  sTypeImm : BitVec 12
  bTypeImm : BitVec 12
  uTypeImm : BitVec 20
  jTypeImm : BitVec 20
  deriving DecidableEq, Repr

/-- `decode` -/
def decode (instr : BitVec 32) : Decode :=
  let op := instr.extractLsb' 0 7
  { rs1 := instr.extractLsb' 15 5
    rs2 := instr.extractLsb' 20 5
    rd := instr.extractLsb' 7 5
    op := op
    funct3 := instr.extractLsb' 12 3
    funct7 := instr.extractLsb' 25 7
    isRType := op == R_TYPE
    isIType := op == I_TYPE_0 || op == I_TYPE_1
    isSType := op == S_TYPE
    isBType := op == B_TYPE
    isUType := op == AUIPC || op == LUI
    isJType := op == J_TYPE
    iTypeImm := instr.extractLsb' 20 12
    sTypeImm := instr.extractLsb' 25 7 ++ instr.extractLsb' 7 5
    bTypeImm := instr.extractLsb' 31 1 ++ instr.extractLsb' 7 1 ++
      instr.extractLsb' 25 6 ++ instr.extractLsb' 8 4
    uTypeImm := instr.extractLsb' 12 20
    jTypeImm := instr.extractLsb' 31 1 ++ instr.extractLsb' 12 8 ++
      instr.extractLsb' 20 1 ++ instr.extractLsb' 21 10 }

/-! ## Control -/

/-- Outputs of `control`. -/
structure Controls where
  pcSel : BitVec 2
  op1Sel : Bool
  op2Sel : BitVec 2
  wbSel : BitVec 2
  pc4Sel : Bool
  memWr : Bool
  cprEn : Bool
  rfEn : Bool
  aluFun : BitVec 6
  deriving DecidableEq, Repr

/-- The assignment of the 17-bit `controls` to the output wires. -/
def Controls.ofBits (controls : BitVec 17) : Controls where
  pcSel := controls.extractLsb' 15 2
  op1Sel := controls[14]
  op2Sel := controls.extractLsb' 12 2
  wbSel := controls.extractLsb' 10 2
  pc4Sel := controls[9]
  memWr := controls[8]
  cprEn := controls[7]
  rfEn := controls[6]
  aluFun := controls.extractLsb' 0 6

/-- The R-type table, by `{funct7[5], funct3}`. -/
def controlR (funct : BitVec 4) : BitVec 17 :=
  if funct = 0x0 then 0b00_0_11_01_0_0_0_1_000000 -- ADD
  else if funct = 0x7 then 0b00_0_11_01_0_0_0_1_010000 -- AND
  else if funct = 0x6 then 0b00_0_11_01_0_0_0_1_001000 -- OR
  else if funct = 0x1 then 0b00_0_11_01_0_0_0_1_000010 -- SLL
  else if funct = 0x2 then 0b00_0_11_01_0_0_0_1_101001 -- SLT
  else if funct = 0x3 then 0b00_0_11_01_0_0_0_1_110001 -- SLTU
  else if funct = 0xd then 0b00_0_11_01_0_0_0_1_000110 -- SRA
  else if funct = 0x5 then 0b00_0_11_01_0_0_0_1_000100 -- SRL
  else if funct = 0x8 then 0b00_0_11_01_0_0_0_1_000001 -- SUB
  else if funct = 0x4 then 0b00_0_11_01_0_0_0_1_100000 -- XOR
  else 0b00_0_00_01_0_0_0_0_100000

/-- The I-type table, by `{opcode[4], 1'b0, funct3}`.  `ANDI` is `6'h1c`, which no
such code equals, and `SRAI` repeats the code of `SRLI`. -/
def controlI (opc : BitVec 5) : BitVec 17 :=
  if opc = 0x0 then 0b00_0_01_00_0_0_0_1_000000 -- LB
  else if opc = 0x4 then 0b00_0_01_00_0_0_0_1_000000 -- LBU
  else if opc = 0x1 then 0b00_0_01_00_0_0_0_1_000000 -- LH
  else if opc = 0x5 then 0b00_0_01_00_0_0_0_1_000000 -- LHU
  else if opc = 0x2 then 0b00_0_01_00_0_0_0_1_000000 -- LW
  else if opc = 0x10 then 0b00_0_01_01_0_0_0_1_000000 -- ADDI
  else if opc = 0x1c then 0b00_0_01_01_0_0_0_1_010000 -- ANDI
  else if opc = 0x16 then 0b00_0_01_01_0_0_0_1_001000 -- ORI
  else if opc = 0x11 then 0b00_0_01_01_0_0_0_1_000010 -- SLLI
  else if opc = 0x15 then 0b00_0_01_01_0_0_0_1_000100 -- SRLI
  else if opc = 0x12 then 0b00_0_01_01_0_0_0_1_101001 -- SLTI
  else if opc = 0x13 then 0b00_0_01_01_0_0_0_1_110001 -- SLTIU
  else if opc = 0x15 then 0b00_0_01_01_0_0_0_1_000110 -- SRAI
  else if opc = 0x14 then 0b00_0_01_01_0_0_0_1_100000 -- XORI
  else if opc = 0x7 then 0b10_0_01_10_1_0_0_1_000000 -- JALR
  else 0b00_0_01_01_0_0_0_0_000000

/-- The S-type table. -/
def controlS (funct3 : BitVec 3) : BitVec 17 :=
  if funct3 = 0x0 then 0b00_0_01_01_0_1_0_0_000000 -- SB
  else if funct3 = 0x1 then 0b00_0_01_01_0_1_0_0_000000 -- SH
  else if funct3 = 0x2 then 0b00_0_01_01_0_1_0_0_000000 -- SW
  else 0b00_0_01_01_0_0_0_0_000000

/-- The B-type table. -/
def controlB (funct3 : BitVec 3) : BitVec 17 :=
  if funct3 = 0x0 then 0b01_0_11_00_0_0_0_0_000001 -- BEQ
  else if funct3 = 0x1 then 0b01_0_11_00_0_0_0_0_000001 -- BNE
  else if funct3 = 0x4 then 0b01_0_11_00_0_0_0_0_000001 -- BLT
  else if funct3 = 0x5 then 0b01_0_11_00_0_0_0_0_000001 -- BGE
  else if funct3 = 0x6 then 0b01_0_11_00_0_0_0_0_110001 -- BLTU
  else if funct3 = 0x7 then 0b01_0_11_00_0_0_0_0_010001 -- BGEU
  else 0b01_0_00_00_0_0_0_0_000001

/-- The U-type table. -/
def controlU (opcode : BitVec 7) : BitVec 17 :=
  if opcode = AUIPC then 0b00_1_10_01_0_0_0_1_000000
  else if opcode = LUI then 0b00_1_00_01_0_0_0_1_000000
  else 0b01_1_10_00_0_0_0_0_000000

/-- `control` -/
def control (funct3 : BitVec 3) (funct7 opcode : BitVec 7)
    (isR isI isS isB isU isJ : Bool) : Controls :=
  let funct := funct7.extractLsb' 5 1 ++ funct3
  let opc := opcode.extractLsb' 4 1 ++ (0#1 ++ funct3)
  Controls.ofBits <|
    if isR then controlR funct
    else if isI then controlI opc
    else if isS then controlS funct3
    else if isB then controlB funct3
    else if isU then controlU opcode
    else if isJ then 0b01_1_01_10_0_0_0_1_000000
    else 0b00_0_00_00_0_0_0_0_000000

/-! ## Immediates -/

/-- `sign_extnd_12bit` -/
def signExtnd12bit (imm : BitVec 12) (instrType : BitVec 7) : BitVec 32 :=
  if instrType = I_TYPE_0 ∨ instrType = I_TYPE_1 ∨ instrType = I_TYPE_2 ∨
      instrType = S_TYPE then imm.signExtend 32
  else if instrType = B_TYPE then (imm ++ 0#1).signExtend 32
  else imm.signExtend 32

/-- `sign_extnd_20bit` -/
def signExtnd20bit (imm : BitVec 20) : BitVec 32 := (imm ++ 0#1).signExtend 32

end SimpleCpu.RiscV
