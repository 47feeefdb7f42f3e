import SimpleCpu.Bits.Arithmetic
import SimpleCpu.RiscV.CoreCorrect

/-!
# Immediate operations in the RISC-V pipeline

The words of opcode 0x13 that the architecture defines, against the control table and the
ALU.  Two rows of the table are wrong: the code of `ANDI` equals no code that the decoder
forms, so that nothing is written, and `SRAI` has the code of `SRLI`, so that the shift is
logical.  `imm_writes_back_iff` says which words are written back right.
-/

namespace SimpleCpu.RiscV

open SimpleCpu.Bits SimpleCpu.Rtl SimpleCpu.RiscV.Isa

/-! ## The operations -/

namespace Isa

/-- Operations of opcode 0x13. -/
inductive ImmOp where
  | addi | slti | sltiu | xori | ori | andi | slli | srli | srai
  deriving DecidableEq, Repr

/-- The shift amount of an immediate shift. -/
def shamt (imm : BitVec 12) : Nat := (imm.extractLsb' 0 5).toNat

def ImmOp.eval (a : Word) (imm : BitVec 12) : ImmOp → Word
  | .addi => a + imm.signExtend 32
  | .slti => (BitVec.ofBool (a.slt (imm.signExtend 32))).setWidth 32
  | .sltiu => (BitVec.ofBool (a.ult (imm.signExtend 32))).setWidth 32
  | .xori => a ^^^ imm.signExtend 32
  | .ori => a ||| imm.signExtend 32
  | .andi => a &&& imm.signExtend 32
  | .slli => a <<< shamt imm
  | .srli => a >>> shamt imm
  | .srai => a.sshiftRight (shamt imm)

/-- The operation of the two function fields.  A shift fixes the upper one. -/
def immFun (funct3 : BitVec 3) (funct7 : BitVec 7) : Option ImmOp :=
  if funct3 = 0 then some .addi
  else if funct3 = 1 then if funct7 = 0 then some .slli else none
  else if funct3 = 2 then some .slti
  else if funct3 = 3 then some .sltiu
  else if funct3 = 4 then some .xori
  else if funct3 = 5 then
    if funct7 = 0 then some .srli else if funct7 = 0x20 then some .srai else none
  else if funct3 = 6 then some .ori
  else some .andi

/-- The word is a valid one of opcode 0x13. -/
def IsImmOp (w : Word) (op : ImmOp) : Prop :=
  opcode w = 0x13 ∧ immFun (funct3 w) (w.extractLsb' 25 7) = some op

instance (w : Word) (op : ImmOp) : Decidable (IsImmOp w op) :=
  inferInstanceAs (Decidable (_ ∧ _))

end Isa

/-- With the word in the execute stage and the value `a` as its first operand, two clocks
later the register file is written as the architecture says, whatever it holds. -/
def WritesBack (w a result : Word) : Prop :=
  ∀ (imem : Word → Word) (iss : IssPipeReg) (s : Top), iss.instr = w →
    s.ex.toIssueOut = issueStage false iss → s.rDataP1 = a →
    let retiring := (s.clock imem false).clock imem false
    retiring.regFile 0 = 0 →
      retiring.regFileNext = writeReg retiring.regFile (Isa.rd w) result

/-! ## The pipeline -/

/-- The operation that the control table selects by `funct3`. -/
def controlIFun (fn : BitVec 3) : AluFun :=
  if fn = 1 then .sll
  else if fn = 2 then .slt
  else if fn = 3 then .sltu
  else if fn = 4 then .xor
  else if fn = 5 then .srl
  else if fn = 6 then .or
  else .add

/-- All rows of the I-type table for opcode 0x13. -/
theorem controlI_data : ∀ fn : BitVec 3,
    Controls.ofBits (controlI (1#1 ++ (0#1 ++ fn))) =
      { pcSel := 0, op1Sel := false, op2Sel := 0b01, wbSel := 0b01, pc4Sel := false
        memWr := false, cprEn := false, rfEn := fn != 7, aluFun := aluOp (controlIFun fn) } := by
  decide

section Pipeline

variable {iss : IssPipeReg} (hop : opcode iss.instr = 0x13)

include hop

theorem sextImm_data : (issueStage false iss).sextImm = (immI iss.instr).signExtend 32 := by
  show (decode iss.instr).signExtndImm = _
  simp [Decode.signExtndImm, Decode.instrImm12bit, signExtnd12bit, decode_eq, hop]

theorem control_data :
    (decode iss.instr).controls =
      { pcSel := 0, op1Sel := false, op2Sel := 0b01, wbSel := 0b01, pc4Sel := false
        memWr := false, cprEn := false, rfEn := Isa.funct3 iss.instr != 7
        aluFun := aluOp (controlIFun (Isa.funct3 iss.instr)) } := by
  have hrow := controlI_data (Isa.funct3 iss.instr)
  simp [Decode.controls, control, decode_eq, hop, hrow]

/-- What reaches the write-back stage. -/
theorem toWb_data (a b : Word) (dmem : Dmem) :
    let wb := ((issueStage false iss).toMem a b).toWb dmem
    wb.rfEn = (Isa.funct3 iss.instr != 7) ∧ wb.rd = Isa.rd iss.instr ∧
      wb.wbSel = 0b01 ∧
      wb.aluRes =
        (controlIFun (Isa.funct3 iss.instr)).eval a ((immI iss.instr).signExtend 32) := by
  have hctl := control_data hop
  refine ⟨congrArg Controls.rfEn hctl, rfl, congrArg Controls.wbSel hctl, ?_⟩
  show ((issueStage false iss).alu a b).res = _
  rw [IssueOut.alu_immediate (congrArg Controls.op1Sel hctl) (congrArg Controls.op2Sel hctl)
    (congrArg Controls.aluFun hctl), sextImm_data hop]

/-- The write of the pipeline, as the architecture writes. -/
theorem regFileNext_data {a b : Word} {dmem : Dmem} {s : Top}
    (hwb : s.wb = ((issueStage false iss).toMem a b).toWb dmem) (h0 : s.regFile 0 = 0) :
    s.regFileNext =
      if Isa.funct3 iss.instr = 7 then s.regFile
      else writeReg s.regFile (Isa.rd iss.instr)
        ((controlIFun (Isa.funct3 iss.instr)).eval a ((immI iss.instr).signExtend 32)) := by
  obtain ⟨hen, hrd, hsel, hres⟩ := toWb_data hop a b dmem
  unfold Top.regFileNext
  rw [hwb, hen, hrd]
  by_cases h7 : Isa.funct3 iss.instr = 7
  · rw [if_pos h7, h7]
    rfl
  · have hne : (Isa.funct3 iss.instr != 7) = true := bne_iff_ne.mpr h7
    rw [if_neg h7, if_pos hne, ← hres]
    unfold WbPipeReg.wrData
    rw [hrd, hsel]
    exact update_eq_writeReg h0 (Isa.rd iss.instr) _

end Pipeline

/-- The write is right when there is nothing to write, or when the word has a row in the
table and the ALU computes the result. -/
theorem writesBack_iff {w : Word} (hop : opcode w = 0x13) (a result : Word) :
    WritesBack w a result ↔ Isa.rd w = 0 ∨ Isa.funct3 w ≠ 7 ∧
      (controlIFun (Isa.funct3 w)).eval a ((immI w).signExtend 32) = result := by
  constructor
  · intro h
    refine or_iff_not_imp_left.mpr fun hrd => ?_
    let iss : IssPipeReg := { instr := w }
    have hiss : opcode iss.instr = 0x13 := hop
    -- registers that hold another value than the result, and nothing older to write
    let s : Top :=
      { Top.cleared fun _ => 0 with
        regFile := fun r => if r = 0 then 0 else ~~~result
        ex := { toIssueOut := issueStage false iss, rDataP1 := a } }
    have hop1 : s.rDataP1 = a := by simp [Top.rDataP1, fwdSelect, s, Top.cleared]
    have hnext := h (fun _ => 0) iss s rfl rfl hop1 rfl
    rw [regFileNext_data hiss rfl rfl] at hnext
    have hat := congrFun hnext (Isa.rd w)
    have hself (regs : BitVec 5 → Word) (v : Word) :
        writeReg regs (Isa.rd w) v (Isa.rd w) = v := by
      unfold writeReg
      rw [if_neg hrd]
      exact Function.update_self ..
    rw [hself _ result, hop1] at hat
    by_cases h7 : Isa.funct3 w = 7
    · rw [if_pos h7] at hat
      have hcompl : ~~~result = result := (if_neg hrd).symm.trans hat
      exact absurd hcompl.symm (BitVec.ne_not_self (by decide))
    · rw [if_neg h7, hself] at hat
      exact ⟨h7, hat⟩
  · rintro h imem iss s rfl hex rfl retiring h0
    have hwb : ((s.clock imem false).clock imem false).wb =
        ((issueStage false iss).toMem s.rDataP1 s.rDataP2).toWb (s.clock imem false).dmem := by
      rw [← hex]
      rfl
    rw [regFileNext_data hop hwb h0]
    rcases h with hrd | ⟨h7, hres⟩
    · rw [hrd]
      unfold writeReg
      rw [if_pos rfl, if_pos rfl, ite_self]
    · rw [if_neg h7, hres]

/-! ## Against the architecture -/

/-- The operation of the ALU for an operation of the architecture.  That of `ANDI` is the
one of the default row. -/
def Isa.ImmOp.pipelineFun : ImmOp → AluFun
  | .addi => .add
  | .slti => .slt
  | .sltiu => .sltu
  | .xori => .xor
  | .ori => .or
  | .andi => .add
  | .slli => .sll
  | .srli => .srl
  | .srai => .srl

/-- Rows of opcode 0x13, by operation. -/
theorem immFun_row : ∀ (fn : BitVec 3) (funct7 : BitVec 7), ∀ op ∈ immFun fn funct7,
    controlIFun fn = op.pipelineFun ∧ (fn = 7 ↔ op = .andi) := by
  decide +kernel

/-- The shift amount that the ALU takes from the extended immediate. -/
theorem shamt_eq (imm : BitVec 12) : (imm.signExtend 32).toNat % 32 = shamt imm := by
  have hlow : (imm.signExtend 32).extractLsb' 0 5 = imm.extractLsb' 0 5 := by
    apply BitVec.eq_of_getLsbD_eq
    intro i hi
    have h12 : i < 12 := by omega
    have h32 : i < 32 := by omega
    simp only [BitVec.getLsbD_extractLsb', BitVec.getLsbD_signExtend, Nat.zero_add, h12, h32,
      if_true, decide_true, Bool.true_and]
  unfold shamt
  rw [← hlow, BitVec.extractLsb'_toNat]
  rfl

/-- Where the selected operation computes the result of the architecture. -/
theorem pipelineFun_eval_iff (a : Word) (imm : BitVec 12) {op : ImmOp} (hop : op ≠ .andi) :
    op.pipelineFun.eval a (imm.signExtend 32) = op.eval a imm ↔
      (op = .srai → shamt imm = 0 ∨ a.msb = false) := by
  cases op with
  | andi => exact absurd rfl hop
  | srai =>
      show a >>> ((imm.signExtend 32).toNat % 32) = a.sshiftRight (shamt imm) ↔ _
      rw [shamt_eq, sshiftRight_eq_iff]
      exact ⟨fun h _ => h, fun h => h rfl⟩
  | slli =>
      have heq : AluFun.sll.eval a (imm.signExtend 32) = a <<< shamt imm :=
        congrArg (a <<< ·) (shamt_eq imm)
      exact iff_of_true heq ImmOp.noConfusion
  | srli =>
      have heq : AluFun.srl.eval a (imm.signExtend 32) = a >>> shamt imm :=
        congrArg (a >>> ·) (shamt_eq imm)
      exact iff_of_true heq ImmOp.noConfusion
  | addi | slti | sltiu | xori | ori => exact iff_of_true rfl ImmOp.noConfusion

/-- A valid word of opcode 0x13 is written back right exactly when it writes `x0`, or is
no `ANDI` and no `SRAI` that shifts a negative value. -/
theorem imm_writes_back_iff {w : Word} {op : ImmOp} (h : IsImmOp w op) (a : Word) :
    WritesBack w a (op.eval a (immI w)) ↔
      Isa.rd w = 0 ∨ op ≠ .andi ∧ (op = .srai → shamt (immI w) = 0 ∨ a.msb = false) := by
  obtain ⟨hop, hfun⟩ := h
  obtain ⟨hrow, h7⟩ := immFun_row _ _ op hfun
  rw [writesBack_iff hop, hrow, Ne, h7]
  refine or_congr Iff.rfl (and_congr_right fun hne => ?_)
  exact pipelineFun_eval_iff a (immI w) hne

/-- `SRAI x1, x2, 1` of a value that is not negative. -/
theorem imm_writes_back_srai :
    WritesBack 0x40115093 6 (ImmOp.srai.eval 6 (immI 0x40115093)) :=
  (imm_writes_back_iff (show IsImmOp 0x40115093 .srai by decide +kernel) 6).mpr
    (.inr ⟨ImmOp.noConfusion, fun _ => .inr (by decide +kernel)⟩)

/-- `ANDI x1, x2, 255` writes nothing, and `SRAI x1, x2, 1` of the least signed number
shifts a zero in. -/
theorem andi_srai_not_written :
    IsImmOp 0x0FF17093 .andi ∧
      ¬ WritesBack 0x0FF17093 1 (ImmOp.andi.eval 1 (immI 0x0FF17093)) ∧
      IsImmOp 0x40115093 .srai ∧
      ¬ WritesBack 0x40115093 0x80000000 (ImmOp.srai.eval 0x80000000 (immI 0x40115093)) := by
  refine ⟨by decide +kernel, ?_, by decide +kernel, ?_⟩
  · rw [writesBack_iff (by decide +kernel)]
    decide +kernel
  · rw [writesBack_iff (by decide +kernel)]
    decide +kernel

end SimpleCpu.RiscV
