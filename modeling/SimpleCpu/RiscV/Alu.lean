import SimpleCpu.Bits.Fields
import SimpleCpu.Rtl.Adder

/-!
# The ALU of the RISC-V pipeline

`alu`, with its shifter.  Every unit is driven for every
operation and the operation selects a result; where the source assigns `x` the model
has zero, and no operation of the control table selects such a value.
-/

namespace SimpleCpu.RiscV

open SimpleCpu.Bits SimpleCpu.Rtl

/-! ## Shifter -/

/-- `shifter` -/
def shifter (op1 : BitVec 32) (shamt : BitVec 5) (operation : BitVec 2) : BitVec 32 :=
  if operation = 0b01 then op1 <<< shamt
  else if operation = 0b10 then op1 >>> shamt
  else if operation = 0b11 then
    let signBits := 0xFFFFFFFF#32 <<< (0x1F#5 - shamt)
    let shiftRes := op1 >>> shamt
    if op1.getLsbD 31 then signBits ||| shiftRes else shiftRes
  else 0

/-! ## Operations, `riscv_alu_defines.v` -/

abbrev ADD_OP : BitVec 6 := 0b000_00_0
abbrev SUB_OP : BitVec 6 := 0b000_00_1
abbrev SHL_OP : BitVec 6 := 0b000_01_0
abbrev LSR_OP : BitVec 6 := 0b000_10_0
abbrev ASR_OP : BitVec 6 := 0b000_11_0
abbrev OR_OP : BitVec 6 := 0b001_00_0
abbrev AND_OP : BitVec 6 := 0b010_00_0
abbrev NOR_OP : BitVec 6 := 0b011_00_0
abbrev XOR_OP : BitVec 6 := 0b100_00_0
abbrev SLT_OP : BitVec 6 := 0b101_00_1
abbrev SLTU_OP : BitVec 6 := 0b110_00_1
abbrev BGEU_OP : BitVec 6 := 0b010_00_1

/-- Outputs of `alu`. -/
structure AluOut where
  res : BitVec 32
  z : Bool
  n : Bool
  deriving DecidableEq, Repr

/-- `alu` -/
def alu (oprA oprB : BitVec 32) (op : BitVec 6) : AluOut :=
  let oprBNegated := if op.getLsbD 0 then ~~~oprB else oprB
  let adderOut := adder oprA oprBNegated (op.getLsbD 0)
  let shifterOut := shifter oprA (oprB.extractLsb' 0 5) (op.extractLsb' 1 2)
  let logicalOut := logical oprA oprB (op.extractLsb' 3 3)
  let comparatorOut := comparator oprA oprB (op.extractLsb' 3 3)
  let n :=
    if op = SLTU_OP then comparatorOut
    else if op = BGEU_OP then !comparatorOut
    else if adderOut.vFlag then oprA.getLsbD 31 else adderOut.sum.getLsbD 31
  let res :=
    if op = ADD_OP ∨ op = SUB_OP then adderOut.sum
    else if op = SHL_OP ∨ op = LSR_OP ∨ op = ASR_OP then shifterOut
    else if op = OR_OP ∨ op = AND_OP ∨ op = NOR_OP ∨ op = XOR_OP then logicalOut
    else if op = SLTU_OP ∨ op = BGEU_OP then (BitVec.ofBool comparatorOut).setWidth 32
    else if op = SLT_OP then (BitVec.ofBool n).setWidth 32
    else 0
  { res := res, z := adderOut.sum == 0, n := n }

/-! ## What each operation computes -/

section Results

variable (a b : BitVec 32)

/-- Bit `i` of a mask of ones shifted up by `31 - n`. -/
theorem getLsbD_signMask (n : BitVec 5) {i : Nat} (hi : i < 32) :
    (0xFFFFFFFF#32 <<< (0x1F#5 - n)).getLsbD i = decide (31 ≤ n.toNat + i) := by
  have hn := n.isLt
  have hsub : (0x1F#5 - n).toNat = 31 - n.toNat := by
    rw [BitVec.toNat_sub]; simp; omega
  have hones : (0xFFFFFFFF#32) = BitVec.allOnes 32 := by decide
  rw [BitVec.shiftLeft_eq', hsub, hones, BitVec.getLsbD_shiftLeft, BitVec.getLsbD_allOnes,
    Bool.eq_iff_iff]
  simp only [Bool.and_eq_true, Bool.not_eq_true', decide_eq_true_eq, decide_eq_false_iff_not]
  omega

/-- The mask built from the sign makes the logical shift arithmetic. -/
theorem shifter_arith (n : BitVec 5) : shifter a n 0b11 = a.sshiftRight n.toNat := by
  have hsign : a.getLsbD 31 = a.msb := by simp [BitVec.msb_eq_getLsbD_last]
  have hshifter : shifter a n 0b11 =
      if a.msb then 0xFFFFFFFF#32 <<< (0x1F#5 - n) ||| a >>> n else a >>> n := by
    rw [← hsign]
    rfl
  rw [hshifter]
  apply BitVec.eq_of_getLsbD_eq
  intro i hi
  have hmask := getLsbD_signMask n hi
  have hshift : (a >>> n).getLsbD i = a.getLsbD (n.toNat + i) := by
    rw [BitVec.ushiftRight_eq', BitVec.getLsbD_ushiftRight]
  have hin : decide (32 ≤ i) = false := decide_eq_false (by omega)
  rw [BitVec.getLsbD_sshiftRight, hin, Bool.not_false, Bool.true_and]
  cases hm : a.msb with
  | false =>
      rw [if_neg Bool.false_ne_true, hshift]
      by_cases hlt : n.toNat + i < 32
      · rw [if_pos hlt]
      · rw [if_neg hlt, BitVec.getLsbD_of_ge a _ (by omega)]
  | true =>
      rw [if_pos rfl, BitVec.getLsbD_or, hmask, hshift]
      by_cases hlt : n.toNat + i < 32
      · rw [if_pos hlt]
        by_cases h31 : n.toNat + i = 31
        · rw [h31, hsign, hm]
          rfl
        · have hlow : decide (31 ≤ n.toNat + i) = false := decide_eq_false (by omega)
          rw [hlow, Bool.false_or]
      · have hhigh : decide (31 ≤ n.toNat + i) = true := decide_eq_true (by omega)
        rw [if_neg hlt, hhigh, Bool.true_or]

theorem alu_add : (alu a b ADD_OP).res = a + b := by
  simp [alu, ADD_OP, SUB_OP, SLTU_OP, BGEU_OP]

theorem alu_sub : (alu a b SUB_OP).res = a - b := by
  simp [alu, ADD_OP, SUB_OP, SLTU_OP, BGEU_OP]

theorem alu_shl : (alu a b SHL_OP).res = a <<< (b &&& 0x1F#32) := by
  simp [alu, shifter, and_31_eq_mod]

theorem alu_lsr : (alu a b LSR_OP).res = a >>> (b &&& 0x1F#32) := by
  simp [alu, shifter, and_31_eq_mod]

theorem alu_asr : (alu a b ASR_OP).res = a.sshiftRight (b.toNat % 32) := by
  have h := shifter_arith a (b.extractLsb' 0 5)
  simpa [alu] using h

theorem alu_or : (alu a b OR_OP).res = a ||| b := by
  simp [alu, logical]

theorem alu_and : (alu a b AND_OP).res = a &&& b := by
  simp [alu, logical]

theorem alu_xor : (alu a b XOR_OP).res = a ^^^ b := by
  simp [alu, logical]

theorem alu_sltu : (alu a b SLTU_OP).res = (BitVec.ofBool (a.ult b)).setWidth 32 := by
  simp [alu, comparator]

theorem alu_slt : (alu a b SLT_OP).res = (BitVec.ofBool (a.slt b)).setWidth 32 := by
  rw [← adder_less]
  simp [alu, BitVec.msb_eq_getLsbD_last]

theorem alu_nor : (alu a b NOR_OP).res = ~~~(a ||| b) := by
  simp [alu, logical]

theorem alu_bgeu : (alu a b BGEU_OP).res = (BitVec.ofBool (b.ult a)).setWidth 32 := by
  simp [alu, comparator]

/-! Flags.  Bit 0 of an operation makes the adder subtract. -/

section Flags

variable {op : BitVec 6} (hsub : op.getLsbD 0 = true)

include hsub

theorem alu_z : (alu a b op).z = (a == b) := by
  simp only [alu, hsub, if_true, adder_sub]
  rw [Bool.eq_iff_iff, beq_iff_eq, beq_iff_eq]
  exact BitVec.sub_eq_iff_eq_add.trans (by simp)

/-- The sign of the difference, corrected by the overflow. -/
theorem alu_n (hsltu : op ≠ SLTU_OP) (hbgeu : op ≠ BGEU_OP) :
    (alu a b op).n = a.slt b := by
  rw [← adder_less]
  simp only [alu, hsub, if_neg hsltu, if_neg hbgeu, if_true, BitVec.msb_eq_getLsbD_last]

end Flags

theorem alu_sub_z : (alu a b SUB_OP).z = (a == b) := alu_z a b rfl

theorem alu_bgeu_z : (alu a b BGEU_OP).z = (a == b) := alu_z a b rfl

theorem alu_sub_n : (alu a b SUB_OP).n = a.slt b := alu_n a b rfl (by decide) (by decide)

theorem alu_slt_n : (alu a b SLT_OP).n = a.slt b := alu_n a b rfl (by decide) (by decide)

theorem alu_sltu_n : (alu a b SLTU_OP).n = a.ult b := by
  simp [alu, comparator]

theorem alu_bgeu_n : (alu a b BGEU_OP).n = !b.ult a := by
  simp [alu, comparator]

end Results

end SimpleCpu.RiscV
