import SimpleCpu.RiscV.Alu

/-!
# The ALU against arithmetic

Each operation of `riscv_alu_defines.v` beside the function it is meant to compute, over
numbers where the bits are a number.  `alu_correct` compares result and flags.
-/

namespace SimpleCpu.RiscV

open SimpleCpu.Bits

/-! ## Reference -/

/-- The operations of `riscv_alu_defines.v`. -/
inductive AluOp where
  | add | sub | shl | lsr | asr | or | and | nor | xor | slt | sltu | bgeu
  deriving DecidableEq, Repr

def AluOp.code : AluOp → BitVec 6
  | .add => ADD_OP
  | .sub => SUB_OP
  | .shl => SHL_OP
  | .lsr => LSR_OP
  | .asr => ASR_OP
  | .or => OR_OP
  | .and => AND_OP
  | .nor => NOR_OP
  | .xor => XOR_OP
  | .slt => SLT_OP
  | .sltu => SLTU_OP
  | .bgeu => BGEU_OP

/-- The result of an operation.  The comparison for BGEU puts out whether `a` is the
greater one. -/
def AluOp.eval (a b : BitVec 32) : AluOp → BitVec 32
  | .add => a + b
  | .sub => a - b
  | .shl => a <<< (b.toNat % 32)
  | .lsr => a >>> (b.toNat % 32)
  | .asr => a.sshiftRight (b.toNat % 32)
  | .or => a ||| b
  | .and => a &&& b
  | .nor => ~~~(a ||| b)
  | .xor => a ^^^ b
  | .slt => if a.toInt < b.toInt then 1 else 0
  | .sltu => if a.toNat < b.toNat then 1 else 0
  | .bgeu => if b.toNat < a.toNat then 1 else 0

/-- The operations that drive the adder with the complement of `b`. -/
def AluOp.subtracts : AluOp → Bool
  | .sub | .slt | .sltu | .bgeu => true
  | _ => false

/-! ## Comparison -/

theorem AluOp.subtracts_eq (op : AluOp) : op.subtracts = op.code.getLsbD 0 := by
  cases op <;> rfl

/-- One bit as a word. -/
theorem setWidth_ofBool_decide (p : Prop) [Decidable p] :
    (BitVec.ofBool (decide p)).setWidth 32 = if p then 1 else 0 := by
  by_cases hp : p
  · rw [if_pos hp, decide_eq_true hp]
    rfl
  · rw [if_neg hp, decide_eq_false hp]
    rfl

theorem alu_eval (a b : BitVec 32) (op : AluOp) : (alu a b op.code).res = op.eval a b := by
  cases op with
  | add => exact alu_add a b
  | sub => exact alu_sub a b
  | shl =>
      show (alu a b SHL_OP).res = a <<< (b.toNat % 32)
      rw [alu_shl, BitVec.shiftLeft_eq', toNat_and_31]
  | lsr =>
      show (alu a b LSR_OP).res = a >>> (b.toNat % 32)
      rw [alu_lsr, BitVec.ushiftRight_eq', toNat_and_31]
  | asr => exact alu_asr a b
  | or => exact alu_or a b
  | and => exact alu_and a b
  | nor => exact alu_nor a b
  | xor => exact alu_xor a b
  | slt => exact (alu_slt a b).trans (setWidth_ofBool_decide (a.toInt < b.toInt))
  | sltu => exact (alu_sltu a b).trans (setWidth_ofBool_decide (a.toNat < b.toNat))
  | bgeu => exact (alu_bgeu a b).trans (setWidth_ofBool_decide (b.toNat < a.toNat))

/-- Results, the zero flag of the operations that subtract, and the comparison that the
negative flag makes for each of them. -/
theorem alu_correct (a b : BitVec 32) :
    (∀ op : AluOp, (alu a b op.code).res = op.eval a b) ∧
      (∀ op : AluOp, op.subtracts = true → ((alu a b op.code).z = true ↔ a = b)) ∧
      ((alu a b SUB_OP).n = true ↔ a.toInt < b.toInt) ∧
      ((alu a b SLT_OP).n = true ↔ a.toInt < b.toInt) ∧
      ((alu a b SLTU_OP).n = true ↔ a.toNat < b.toNat) ∧
      ((alu a b BGEU_OP).n = true ↔ a.toNat ≤ b.toNat) := by
  refine ⟨alu_eval a b, ?_, ?_, ?_, ?_, ?_⟩
  · intro op hsub
    rw [alu_z a b (op.subtracts_eq.symm.trans hsub), beq_iff_eq]
  · rw [alu_sub_n]
    exact decide_eq_true_iff
  · rw [alu_slt_n]
    exact decide_eq_true_iff
  · rw [alu_sltu_n]
    exact decide_eq_true_iff
  · rw [alu_bgeu_n, Bool.not_eq_true', BitVec.ult]
    exact decide_eq_false_iff_not.trans Nat.not_lt

end SimpleCpu.RiscV
