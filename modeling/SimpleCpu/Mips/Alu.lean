import SimpleCpu.Mips.Isa
import SimpleCpu.Rtl.Adder

/-!
# The ALUs of the MIPS datapaths

`alu` of the pipeline and of the single-cycle processor, with their shifter.  They
differ in the zero flag and in the adder; the result is selected alike.  Where the
source assigns `x` the model has zero, and no operation of the control table selects
such a value.
-/

namespace SimpleCpu.Mips

open SimpleCpu.Rtl SimpleCpu.Mips.Isa

/-! ## Operations, `mips_alu_defines.v` -/

abbrev ADD_OP : BitVec 6 := 0b000_00_0
abbrev SUB_OP : BitVec 6 := 0b000_00_1
abbrev SHL_OP : BitVec 6 := 0b000_01_0
abbrev LSR_OP : BitVec 6 := 0b000_10_0
abbrev ASR_OP : BitVec 6 := 0b000_11_0
abbrev OR_OP : BitVec 6 := 0b001_00_0
abbrev AND_OP : BitVec 6 := 0b010_00_0
abbrev NOR_OP : BitVec 6 := 0b011_00_0
abbrev XOR_OP : BitVec 6 := 0b100_00_0
abbrev SLT_OP : BitVec 6 := 0b101_00_1
abbrev SLTU_OP : BitVec 6 := 0b110_00_1

/-! ## Units -/

/-- `shifter`.  The operand is unsigned, so `>>>` shifts in zeros. -/
def shifter (op1 : BitVec 32) (shamt : BitVec 6) (operation : BitVec 2) : BitVec 32 :=
  if operation = 0b01 then op1 <<< shamt
  else if operation = 0b10 then op1 >>> shamt
  else if operation = 0b11 then op1 >>> shamt
  else 0

/-- Outputs of `alu`. -/
structure AluOut where
  res : BitVec 32
  z : Bool
  n : Bool
  deriving DecidableEq, Repr

/-- `res_alu`, from the adder's sum and the sign. -/
def aluResult (oprA oprB : BitVec 32) (op : BitVec 6) (adderOut : BitVec 32) (n : Bool) :
    BitVec 32 :=
  let shifterOut := shifter oprA (oprB.extractLsb' 0 6) (op.extractLsb' 1 2)
  let logicalOut := logical oprA oprB (op.extractLsb' 3 3)
  let comparatorOut := comparator oprA oprB (op.extractLsb' 3 3)
  if op = ADD_OP ∨ op = SUB_OP then adderOut
  else if op = SHL_OP ∨ op = LSR_OP ∨ op = ASR_OP then shifterOut
  else if op = OR_OP ∨ op = AND_OP ∨ op = NOR_OP ∨ op = XOR_OP then logicalOut
  else if op = SLTU_OP then (BitVec.ofBool comparatorOut).setWidth 32
  else if op = SLT_OP then (BitVec.ofBool n).setWidth 32
  else 0

/-- `alu` of the pipeline. -/
def alu (oprA oprB : BitVec 32) (op : BitVec 6) : AluOut :=
  let oprBNegated := if op.getLsbD 0 then ~~~oprB else oprB
  let adderOut := adder oprA oprBNegated (op.getLsbD 0)
  let n := if adderOut.vFlag then oprA.getLsbD 31 else adderOut.sum.getLsbD 31
  { res := aluResult oprA oprB op adderOut.sum n
    z := adderOut.sum == 0
    n := n }

/-- `alu` of the single-cycle processor. -/
def aluSingleCycle (oprA oprB : BitVec 32) (op : BitVec 6) : AluOut :=
  let oprBNegated := if op.getLsbD 0 then ~~~oprB else oprB
  let adderOut := adderSingleCycle oprA oprBNegated (op.getLsbD 0)
  let n := if adderOut.vFlag then oprA.getLsbD 31 else adderOut.sum.getLsbD 31
  let res := aluResult oprA oprB op adderOut.sum n
  { res := res
    z := res == 0
    n := n }

/-! ## What the operations compute -/

/-- The operation of a register or immediate instruction. -/
def aluOp : RFun → BitVec 6
  | .add | .addu => ADD_OP
  | .sub | .subu => SUB_OP
  | .and => AND_OP
  | .or => OR_OP
  | .xor => XOR_OP
  | .nor => NOR_OP
  | .slt => SLT_OP
  | .sltu => SLTU_OP

/-- The operation of a shift. -/
def shOp : ShFun → BitVec 6
  | .sll => SHL_OP
  | .srl => LSR_OP

section Results

variable (a b : BitVec 32)

theorem alu_aluOp (f : RFun) : (alu a b (aluOp f)).res = f.eval a b := by
  cases f with
  | add | addu | sub | subu => simp [alu, aluResult, aluOp, RFun.eval]
  | and | or | xor | nor => simp [alu, aluResult, aluOp, RFun.eval, logical]
  | sltu => simp [alu, aluResult, aluOp, RFun.eval, comparator]
  | slt =>
      rw [RFun.eval, ← adder_less]
      simp [alu, aluResult, aluOp, BitVec.msb_eq_getLsbD_last]

/-- The single-cycle processor agrees, except for the signed comparison. -/
theorem aluSingleCycle_aluOp (f : RFun) (hf : f ≠ .slt) :
    (aluSingleCycle a b (aluOp f)).res = f.eval a b := by
  cases f with
  | add | addu | sub | subu =>
      simp [aluSingleCycle, adderSingleCycle_sum, aluResult, aluOp, RFun.eval]
  | and | or | xor | nor => simp [aluSingleCycle, aluResult, aluOp, RFun.eval, logical]
  | sltu => simp [aluSingleCycle, aluResult, aluOp, RFun.eval, comparator]
  | slt => exact absurd rfl hf

/-- A shift amount of five bits, at the width of the shifter. -/
theorem shamt_toNat (n : BitVec 5) :
    ((n.setWidth 32 : BitVec 32).extractLsb' 0 6).toNat = n.toNat := by
  have hn := n.isLt
  simp
  omega

theorem aluResult_shOp (n : BitVec 5) (f : ShFun) (sum : BitVec 32) (neg : Bool) :
    aluResult a (n.setWidth 32) (shOp f) sum neg = f.eval a n := by
  have hn := shamt_toNat n
  cases f with
  | sll =>
      have h : aluResult a (n.setWidth 32) SHL_OP sum neg =
          a <<< (n.setWidth 32 : BitVec 32).extractLsb' 0 6 := by
        simp [aluResult, shifter]
      rw [shOp, h, BitVec.shiftLeft_eq', hn]
      rfl
  | srl =>
      have h : aluResult a (n.setWidth 32) LSR_OP sum neg =
          a >>> (n.setWidth 32 : BitVec 32).extractLsb' 0 6 := by
        simp [aluResult, shifter]
      rw [shOp, h, BitVec.ushiftRight_eq', hn]
      rfl

theorem alu_shOp (n : BitVec 5) (f : ShFun) :
    (alu a (n.setWidth 32) (shOp f)).res = f.eval a n :=
  aluResult_shOp a n f _ _

theorem aluSingleCycle_shOp (n : BitVec 5) (f : ShFun) :
    (aluSingleCycle a (n.setWidth 32) (shOp f)).res = f.eval a n :=
  aluResult_shOp a n f _ _

/-! Flags of the single-cycle processor, for the operations the branches select. -/

theorem aluSingleCycle_sub_z : (aluSingleCycle a b SUB_OP).z = (a == b) := by
  simp [aluSingleCycle, adderSingleCycle_sum, aluResult, BitVec.sub_eq_iff_eq_add]

theorem aluSingleCycle_add_zero_z : (aluSingleCycle a 0 ADD_OP).z = (a == 0) := by
  simp [aluSingleCycle, adderSingleCycle_sum, aluResult]

theorem slt_zero_eq : a.slt 0 = a.getLsbD 31 := by
  have h : a.slt 0#32 = a.msb := BitVec.slt_zero_eq_msb
  exact h.trans (by simp [BitVec.msb_eq_getLsbD_last])

theorem aluSingleCycle_add_zero_n : (aluSingleCycle a 0 ADD_OP).n = a.slt 0 := by
  have hv := adderSingleCycle_vFlag_zero a false
  rw [slt_zero_eq]
  simp at hv
  simp [aluSingleCycle, adderSingleCycle_sum, hv]

theorem aluSingleCycle_sub_zero_n : (aluSingleCycle a 0 SUB_OP).n = a.slt 0 := by
  have hv := adderSingleCycle_vFlag_zero a true
  rw [slt_zero_eq]
  simp only [if_true] at hv
  have hsum : (adder a (~~~0) true).sum = a := by
    rw [adder_sub]
    exact BitVec.sub_zero a
  show (if (adderSingleCycle a (~~~0) true).vFlag then a.getLsbD 31
    else (adder a (~~~0) true).sum.getLsbD 31) = a.getLsbD 31
  simp only [hv, hsum]
  simp

/-! Flags of the pipeline, for the same operations. -/

theorem alu_sub_z : (alu a b SUB_OP).z = (a == b) := by
  simp [alu, BitVec.sub_eq_iff_eq_add]

theorem alu_add_zero_z : (alu a 0 ADD_OP).z = (a == 0) := by
  simp [alu]

theorem alu_add_zero_n : (alu a 0 ADD_OP).n = a.slt 0 := by
  have hsum : (adder a 0 false).sum = a := by
    rw [adder_add]
    exact BitVec.add_zero a
  have hv : (adder a 0 false).vFlag = false := by
    rw [adder_overflow, hsum, bne_self_eq_false, Bool.and_false]
  rw [slt_zero_eq]
  show (if (adder a 0 false).vFlag then a.getLsbD 31 else (adder a 0 false).sum.getLsbD 31) = _
  rw [hv, hsum]
  rfl

theorem alu_sub_n : (alu a b SUB_OP).n = a.slt b := by
  rw [← adder_less, BitVec.msb_eq_getLsbD_last, BitVec.msb_eq_getLsbD_last]
  rfl

end Results

end SimpleCpu.Mips
