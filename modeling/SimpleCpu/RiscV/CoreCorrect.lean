import SimpleCpu.Bits.Fields
import SimpleCpu.RiscV.Core
import SimpleCpu.RiscV.Isa

/-!
# The datapath follows the instructions

`seqStep_eq`: on a word that encodes an instruction, the functions of the pipeline, run
one instruction at a time, do what the instruction says.  The same case analysis gives
the conditions the general pipeline asks of an instruction.
-/

namespace SimpleCpu.RiscV

open SimpleCpu.Bits SimpleCpu.Rtl SimpleCpu.Pipeline SimpleCpu.RiscV.Isa

/-! ## Tables -/

/-- The ALU operation of a function. -/
def aluOp : AluFun → BitVec 6
  | .add => ADD_OP
  | .sub => SUB_OP
  | .and => AND_OP
  | .or => OR_OP
  | .xor => XOR_OP
  | .sll => SHL_OP
  | .srl => LSR_OP
  | .sra => ASR_OP
  | .slt => SLT_OP
  | .sltu => SLTU_OP

theorem alu_aluOp (a b : Word) (f : AluFun) : (alu a b (aluOp f)).res = f.eval a b := by
  cases f with
  | add => exact alu_add a b
  | sub => exact alu_sub a b
  | and => exact alu_and a b
  | or => exact alu_or a b
  | xor => exact alu_xor a b
  | sll =>
      rw [aluOp, alu_shl, BitVec.shiftLeft_eq', toNat_and_31]
      rfl
  | srl =>
      rw [aluOp, alu_lsr, BitVec.ushiftRight_eq', toNat_and_31]
      rfl
  | sra => exact alu_asr a b
  | slt => exact alu_slt a b
  | sltu => exact alu_sltu a b

/-- Rows of the R-type table. -/
theorem controlR_row : ∀ fn : BitVec 4, ∀ f ∈ aluFunR fn,
    Controls.ofBits (controlR fn) =
      { pcSel := 0, op1Sel := false, op2Sel := 0b11, wbSel := 0b01, pc4Sel := false
        memWr := false, cprEn := false, rfEn := true, aluFun := aluOp f } := by
  decide

/-- Rows of the I-type table for opcode `0x13`. -/
theorem controlI_row : ∀ fn : BitVec 3, ∀ f ∈ aluFunI fn,
    Controls.ofBits (controlI (1#1 ++ (0#1 ++ fn))) =
      { pcSel := 0, op1Sel := false, op2Sel := 0b01, wbSel := 0b01, pc4Sel := false
        memWr := false, cprEn := false, rfEn := true, aluFun := aluOp f } := by
  decide

/-- The ALU operation of a branch. -/
def brnAluOp : BrnFun → BitVec 6
  | .bltu => SLTU_OP
  | .bgeu => BGEU_OP
  | _ => SUB_OP

/-- Rows of the B-type table. -/
theorem controlB_row : ∀ fn : BitVec 3, ∀ f ∈ brnFun fn,
    Controls.ofBits (controlB fn) =
      { pcSel := 0b01, op1Sel := false, op2Sel := 0b11, wbSel := 0b00, pc4Sel := false
        memWr := false, cprEn := false, rfEn := false, aluFun := brnAluOp f } := by
  decide

/-! ## The issue stage -/

/-- The control word of an instruction. -/
def Isa.Instr.controls : Instr → Controls
  | .r f .. =>
      { pcSel := 0, op1Sel := false, op2Sel := 0b11, wbSel := 0b01, pc4Sel := false
        memWr := false, cprEn := false, rfEn := true, aluFun := aluOp f }
  | .i f .. =>
      { pcSel := 0, op1Sel := false, op2Sel := 0b01, wbSel := 0b01, pc4Sel := false
        memWr := false, cprEn := false, rfEn := true, aluFun := aluOp f }
  | .lw .. =>
      { pcSel := 0, op1Sel := false, op2Sel := 0b01, wbSel := 0b00, pc4Sel := false
        memWr := false, cprEn := false, rfEn := true, aluFun := aluOp .add }
  | .b f .. =>
      { pcSel := 0b01, op1Sel := false, op2Sel := 0b11, wbSel := 0b00, pc4Sel := false
        memWr := false, cprEn := false, rfEn := false, aluFun := brnAluOp f }
  | .lui .. =>
      { pcSel := 0, op1Sel := true, op2Sel := 0b00, wbSel := 0b01, pc4Sel := false
        memWr := false, cprEn := false, rfEn := true, aluFun := aluOp .add }
  | .auipc .. =>
      { pcSel := 0, op1Sel := true, op2Sel := 0b10, wbSel := 0b01, pc4Sel := false
        memWr := false, cprEn := false, rfEn := true, aluFun := aluOp .add }
  | .jal .. =>
      { pcSel := 0b01, op1Sel := true, op2Sel := 0b01, wbSel := 0b10, pc4Sel := false
        memWr := false, cprEn := false, rfEn := true, aluFun := aluOp .add }

/-- The extended immediate of an instruction. -/
def Isa.Instr.extImm : Instr → Word
  | .r .. => 0
  | .i _ _ _ imm => imm.signExtend 32
  | .lw _ _ imm => imm.signExtend 32
  | .b _ _ _ imm => (imm ++ 0#1).signExtend 32
  | .lui _ imm => imm ++ 0#12
  | .auipc _ imm => imm ++ 0#12
  | .jal _ imm => (imm ++ 0#1).signExtend 32

def Isa.Instr.isJal : Instr → Bool
  | .jal .. => true
  | _ => false

def Isa.Instr.isBranch : Instr → Bool
  | .b .. => true
  | _ => false

/-- What the execute stage is told about an instruction. -/
structure Issues (x : Instr) (iss : IssPipeReg) (out : IssueOut) : Prop where
  valid : out.valid = true
  op : out.op = opcode iss.instr
  funct3 : out.funct3 = funct3 iss.instr
  rs1 : out.rs1 = rs1 iss.instr
  rs2 : out.rs2 = rs2 iss.instr
  rd : out.rd = rd iss.instr
  isBType : out.isBType = x.isBranch
  jump : out.jump = x.isJal
  isLw : (out.isIType && I_TYPE_0 == out.op) = (opcode iss.instr == 0x03)
  op1Sel : out.op1Sel = x.controls.op1Sel
  op2Sel : out.op2Sel = x.controls.op2Sel
  wbSel : out.wbSel = x.controls.wbSel
  memWr : out.memWr = x.controls.memWr
  rfEn : out.rfEn = x.controls.rfEn
  aluFun : out.aluFun = x.controls.aluFun
  nextSeqPc : out.nextSeqPc = iss.nextPc
  currPc : out.currPc = iss.currPc
  sextImm : out.sextImm = x.extImm
  nextBrnPc : out.nextBrnPc = iss.currPc + x.extImm

/-- The decoder reads the fields of a word. -/
theorem decode_eq (w : Word) : decode w =
    { rs1 := rs1 w, rs2 := rs2 w, rd := rd w, op := opcode w, funct3 := funct3 w
      funct7 := w.extractLsb' 25 7
      isRType := opcode w == R_TYPE
      isIType := opcode w == I_TYPE_0 || opcode w == I_TYPE_1
      isSType := opcode w == S_TYPE
      isBType := opcode w == B_TYPE
      isUType := opcode w == AUIPC || opcode w == LUI
      isJType := opcode w == J_TYPE
      iTypeImm := immI w
      sTypeImm := w.extractLsb' 25 7 ++ w.extractLsb' 7 5
      bTypeImm := immB w, uTypeImm := immU w, jTypeImm := immJ w } := rfl

theorem functR_eq (w : Word) :
    (w.extractLsb' 25 7).extractLsb' 5 1 ++ funct3 w = functR w := by
  unfold functR funct3
  congr 1
  apply BitVec.eq_of_getLsbD_eq
  intro i hi
  interval_cases i
  simp

/-- The control word of the issue stage. -/
def Decode.controls (d : Decode) : Controls :=
  control d.funct3 d.funct7 d.op d.isRType d.isIType d.isSType d.isBType d.isUType d.isJType

/-- The control word of an instruction that is encoded. -/
theorem control_eq {w : Word} {x : Instr} (h : Encodes w x) :
    (decode w).controls = x.controls := by
  unfold Decode.controls
  cases h with
  | r hop hf =>
      have hrow := controlR_row _ _ hf
      rw [← functR_eq] at hrow
      simp [control, decode_eq, hop, hrow, Instr.controls]
  | i hop hf =>
      have hrow := controlI_row _ _ hf
      simp [control, decode_eq, hop, hrow, Instr.controls]
  | lw hop hf =>
      simp [control, decode_eq, hop, hf, controlI, Controls.ofBits, Instr.controls, aluOp]
  | b hop hf =>
      have hrow := controlB_row _ _ hf
      simp [control, decode_eq, hop, hrow, Instr.controls]
  | lui hop =>
      simp [control, decode_eq, hop, controlU, Controls.ofBits, Instr.controls, aluOp]
  | auipc hop =>
      simp [control, decode_eq, hop, controlU, Controls.ofBits, Instr.controls, aluOp]
  | jal hop =>
      simp [control, decode_eq, hop, Controls.ofBits, Instr.controls, aluOp]

/-- The immediate of an instruction that is encoded. -/
theorem signExtndImm_eq {w : Word} {x : Instr} (h : Encodes w x) :
    (decode w).signExtndImm = x.extImm := by
  cases h with
  | r hop | i hop | lw hop | b hop =>
      simp [Decode.signExtndImm, Decode.instrImm12bit, signExtnd12bit, decode_eq, hop,
        Instr.extImm]
  | lui hop | auipc hop | jal hop =>
      simp [Decode.signExtndImm, Decode.instrImm20bit, signExtnd20bit, decode_eq, hop,
        Instr.extImm]

/-- What the issue stage makes of an instruction that is encoded. -/
theorem issues {x : Instr} {iss : IssPipeReg} (h : Encodes iss.instr x) :
    Issues x iss (issueStage false iss) where
  valid := by cases h <;> simp [issueStage, decode_eq, *]
  op := rfl
  funct3 := rfl
  rs1 := rfl
  rs2 := rfl
  rd := rfl
  isBType := by cases h <;> simp [issueStage, decode_eq, Instr.isBranch, *]
  jump := by cases h <;> simp [issueStage, decode_eq, Decode.jalr, Instr.isJal, *]
  isLw := by cases h <;> simp [issueStage, decode_eq, *]
  op1Sel := congrArg Controls.op1Sel (control_eq h)
  op2Sel := congrArg Controls.op2Sel (control_eq h)
  wbSel := congrArg Controls.wbSel (control_eq h)
  memWr := congrArg Controls.memWr (control_eq h)
  rfEn := congrArg Controls.rfEn (control_eq h)
  aluFun := congrArg Controls.aluFun (control_eq h)
  nextSeqPc := rfl
  currPc := rfl
  sextImm := signExtndImm_eq h
  nextBrnPc := by simp [issueStage, signExtndImm_eq h]

/-! ## What the general pipeline asks for -/

section Laws

variable {imem : Word → Word}

/-- An instruction that neither writes nor redirects. -/
theorem inertDec {d : IssueOut} (hv : d.valid = false) (hj : d.jump = false)
    (hb : d.isBType = false) (hrf : d.rfEn = false) (hm : d.memWr = false) :
    (core imem).InertDec d where
  jump := hj
  branch := hb
  exec v1 v2 :=
    { fwdEn := by simp [core, IssueOut.toMem, MemPipeReg.masked, hrf]
      store := by simp [core, IssueOut.toMem, MemPipeReg.masked, hm, dataMemWrite]
      finish := fun mem =>
        { valid := hv
          wrEn := fun hw => by
            have hw' : d.rfEn = true := hw
            simp [hrf] at hw' } }

/-- A flushed issue register decodes to nothing. -/
theorem inertDec_bubble : (core imem).InertDec (issueStage false {}) :=
  inertDec (by decide) (by decide) (by decide) (by decide) (by decide)

theorem lawful : (core imem).Lawful where
  taken_branch d v1 v2 ht := by
    have ht' : d.branchTaken (d.alu v1 v2) = true := ht
    show d.isBType = true
    unfold IssueOut.branchTaken at ht'
    cases hb : d.isBType with
    | true => rfl
    | false => simp [hb] at ht'
  seqPc_decode i p n := rfl
  finish_rd m mem := rfl
  finish_fwdEn m mem := rfl
  fwdEn_wrEn m mem hf := hf
  issBubble_pred := rfl
  issBubble_inert := inertDec_bubble
  exBubble_pred := rfl
  exBubble_inert := inertDec rfl rfl rfl rfl rfl

/-- What an instruction writes back. -/
theorem finish_exec (d : IssueOut) (v1 v2 : Word) (mem : Dmem) :
    (core imem).finish ((core imem).exec d v1 v2) mem =
      { valid := d.valid, wrEn := d.rfEn, fwdEn := d.rfEn, rd := d.rd
        data :=
          if d.rd ≠ 0 then
            if d.wbSel.getLsbD 0 then (d.alu v1 v2).res
            else if d.wbSel.getLsbD 1 then d.nextSeqPc
            else dataMemRead mem (d.alu v1 v2).res
          else 0 } := rfl

/-- Every instruction that is encoded is regular. -/
theorem Issues.regular {x : Instr} {iss : IssPipeReg} {d : IssueOut} (h : Issues x iss d)
    (hx : Encodes iss.instr x) : (core imem).Regular d where
  jump_not_branch hj := by
    have hj' : x.isJal = true := h.jump.symm.trans hj
    show d.isBType = false
    rw [h.isBType]
    cases x <;> simp [Instr.isJal, Instr.isBranch] at hj' ⊢
  zeroData v1 v2 mem _ hrd := by
    have hrd' : d.rd = 0 := hrd
    rw [finish_exec]
    exact if_neg (by simpa using hrd')

/-- The first mux forwards what an instruction that is encoded writes back. -/
theorem Issues.forwards {x : Instr} {iss : IssPipeReg} {d : IssueOut} (h : Issues x iss d)
    (hx : Encodes iss.instr x) : (core imem).Forwards d := by
  intro hj v1 v2 mem hf hrd
  have hj' : x.isJal = false := h.jump.symm.trans hj
  have hf' : x.controls.rfEn = true := h.rfEn.symm.trans hf
  have hrd' : d.rd ≠ 0 := hrd
  rw [finish_exec, if_pos hrd', h.wbSel]
  simp only [core, MemPipeReg.masked, IssueOut.toMem, h.isLw]
  cases hx <;> simp [Instr.controls, Instr.isJal, *] at hf' hj' ⊢

end Laws

/-! ## Running instructions one at a time -/

/-- The ALU with the extended immediate as second operand. -/
theorem IssueOut.alu_immediate {d : IssueOut} {f : AluFun} (h1 : d.op1Sel = false)
    (h2 : d.op2Sel = 0b01) (hf : d.aluFun = aluOp f) (a b : Word) :
    (d.alu a b).res = f.eval a d.sextImm := by
  unfold IssueOut.alu IssueOut.aluOp1 IssueOut.aluOp2
  rw [h1, h2, hf]
  exact alu_aluOp a d.sextImm f

/-- The input of the ALU that an instruction does not take from a register is its
immediate or its address. -/
def Isa.Instr.aluRes (pc v1 v2 : Word) : Instr → Word
  | .r f .. => f.eval v1 v2
  | .i f _ _ imm => f.eval v1 (imm.signExtend 32)
  | .lw _ _ imm => v1 + imm.signExtend 32
  | .b .. => 0
  | .lui _ imm => imm ++ 0#12
  | .auipc _ imm => pc + (imm ++ 0#12)
  | .jal _ imm => (imm ++ 0#1).signExtend 32 + (imm ++ 0#1).signExtend 32

theorem Issues.alu_res {x : Instr} {iss : IssPipeReg} {d : IssueOut} (h : Issues x iss d)
    (hb : x.isBranch = false) (v1 v2 : Word) :
    (d.alu v1 v2).res = x.aluRes iss.currPc v1 v2 := by
  unfold IssueOut.alu IssueOut.aluOp1 IssueOut.aluOp2
  rw [h.op1Sel, h.op2Sel, h.aluFun, h.sextImm, h.currPc]
  cases x with
  | r f => simp [Instr.controls, Instr.aluRes, alu_aluOp]
  | i f => simp [Instr.controls, Instr.aluRes, Instr.extImm, alu_aluOp]
  | lw => simp [Instr.controls, Instr.aluRes, Instr.extImm, alu_aluOp, AluFun.eval]
  | b => simp [Instr.isBranch] at hb
  | lui => simp [Instr.controls, Instr.aluRes, Instr.extImm, alu_aluOp, AluFun.eval]
  | auipc =>
      simp [Instr.controls, Instr.aluRes, Instr.extImm, alu_aluOp, AluFun.eval,
        BitVec.add_comm]
  | jal => simp [Instr.controls, Instr.aluRes, Instr.extImm, alu_aluOp, AluFun.eval]

theorem not_slt_or_eq (a b : Word) : (!a.slt b || a == b) = !a.slt b := by
  by_cases h : a = b
  · subst h
    simp [BitVec.slt]
  · simp [h]

theorem ult_or_eq (a b : Word) : (b.ult a || a == b) = !a.ult b := by
  rw [Bool.eq_iff_iff]
  simp only [BitVec.ult, Bool.or_eq_true, decide_eq_true_eq, beq_iff_eq, Bool.not_eq_true',
    decide_eq_false_iff_not, ← BitVec.toNat_inj]
  omega

/-- A condition on the two flags. -/
def brnFlags (z n : Bool) : BrnFun → Bool
  | .beq => z
  | .bne => !z
  | .blt | .bltu => n
  | .bge | .bgeu => !n || z

/-- Rows of the branch decision. -/
theorem brnFlags_row : ∀ fn : BitVec 3, ∀ f ∈ brnFun fn, ∀ z n : Bool,
    ((fn == 0 && z) || ((fn == 4 || fn == 6) && n) || (fn == 1 && !z) ||
      ((fn == 5 || fn == 7) && (!n || z))) = brnFlags z n f := by
  decide

theorem brnFlags_alu (a b : Word) (f : BrnFun) :
    brnFlags (alu a b (brnAluOp f)).z (alu a b (brnAluOp f)).n f = f.eval a b := by
  cases f with
  | beq => exact alu_sub_z a b
  | bne => exact congrArg (!·) (alu_sub_z a b)
  | blt => exact alu_sub_n a b
  | bge =>
      show (!(alu a b SUB_OP).n || (alu a b SUB_OP).z) = !a.slt b
      rw [alu_sub_n, alu_sub_z, not_slt_or_eq]
  | bltu => exact alu_sltu_n a b
  | bgeu =>
      show (!(alu a b BGEU_OP).n || (alu a b BGEU_OP).z) = !a.ult b
      rw [alu_bgeu_n, alu_bgeu_z, Bool.not_not, ult_or_eq]

/-- The branch condition of the execute stage. -/
theorem Issues.taken {x : Instr} {iss : IssPipeReg} {d : IssueOut} (h : Issues x iss d)
    (hx : Encodes iss.instr x) (v1 v2 : Word) :
    d.branchTaken (d.alu v1 v2) =
      match x with
      | .b f .. => f.eval v1 v2
      | _ => false := by
  unfold IssueOut.branchTaken
  rw [h.isBType, h.funct3]
  cases hx with
  | @b f hop hf =>
      have halu : d.alu v1 v2 = RiscV.alu v1 v2 (brnAluOp f) := by
        unfold IssueOut.alu IssueOut.aluOp1 IssueOut.aluOp2
        rw [h.op1Sel, h.op2Sel, h.aluFun]
        simp [Instr.controls]
      simp only [Instr.isBranch, Bool.true_and]
      rw [brnFlags_row _ _ hf, halu, brnFlags_alu]
  | r => simp [Instr.isBranch]
  | i => simp [Instr.isBranch]
  | lw => simp [Instr.isBranch]
  | lui => simp [Instr.isBranch]
  | auipc => simp [Instr.isBranch]
  | jal => simp [Instr.isBranch]

/-- No instruction that is encoded is an indirect jump. -/
theorem jalr_eq {w : Word} {x : Instr} (h : Encodes w x) : (decode w).jalr = false := by
  cases h <;> simp [Decode.jalr, decode_eq, *]

/-- The target of a jump. -/
theorem nextJmpPc_eq {x : Instr} {iss : IssPipeReg} (h : Encodes iss.instr x) :
    nextJmpPc iss = iss.currPc + x.extImm := by
  unfold nextJmpPc
  simp only [jalr_eq h, signExtndImm_eq h]
  simp

section Sequential

variable {imem : Word → Word} {a : Arch Word (BitVec 5) Dmem} {x : Instr}

theorem seqDec_issues (hx : Encodes (instrMemRead imem a.pc) x) :
    Issues x { instr := instrMemRead imem a.pc, currPc := a.pc
               nextPc := (adder a.pc 0x4 false).sum } ((core imem).seqDec a) :=
  issues hx

@[simp] theorem seqDec_rs1 :
    (core imem).rs1 ((core imem).seqDec a) = rs1 (instrMemRead imem a.pc) := rfl

@[simp] theorem seqDec_rs2 :
    (core imem).rs2 ((core imem).seqDec a) = rs2 (instrMemRead imem a.pc) := rfl

theorem seqDec_regular (hx : Encodes (instrMemRead imem a.pc) x) :
    (core imem).Regular ((core imem).seqDec a) :=
  (seqDec_issues hx).regular hx

theorem seqDec_forwards (hx : Encodes (instrMemRead imem a.pc) x) :
    (core imem).Forwards ((core imem).seqDec a) :=
  (seqDec_issues hx).forwards hx

/-- Writing zero to register 0 is not writing it. -/
theorem update_eq_writeReg {regs : BitVec 5 → Word} (h0 : regs 0 = 0) (rd : BitVec 5)
    (v : Word) :
    Function.update regs rd (if rd ≠ 0 then v else 0) = writeReg regs rd v := by
  unfold writeReg
  by_cases hrd : rd = 0
  · rw [if_pos hrd, if_neg (by simpa using hrd), hrd, ← h0, Function.update_eq_self]
  · rw [if_neg hrd, if_pos hrd]

theorem seqWb_valid (hx : Encodes (instrMemRead imem a.pc) x) :
    ((core imem).seqWb a).valid = true :=
  (seqDec_issues hx).valid

/-- The write-back of an instruction with a result. -/
theorem seqWb_of_result (hx : Encodes (instrMemRead imem a.pc) x) {rd : BitVec 5}
    {v : Word} (hr : x.result (dataMemRead a.mem) a.pc a.regs = some (rd, v)) :
    (core imem).seqWb a =
      { valid := true, wrEn := true, fwdEn := true, rd := rd
        data := if rd ≠ 0 then v else 0 } := by
  have h := seqDec_issues hx
  have hb : x.isBranch = false := by
    cases x <;> simp [Instr.result, Instr.isBranch] at hr ⊢
  show (core imem).finish ((core imem).exec _ _ _) _ = _
  rw [finish_exec, h.alu_res hb]
  simp only [h.valid, h.rfEn, h.rd, h.wbSel, h.nextSeqPc]
  cases hx <;> simp only [Instr.result, Option.some.injEq, Prod.mk.injEq] at hr <;>
    obtain ⟨rfl, rfl⟩ := hr <;> simp [Instr.controls, Instr.aluRes]

theorem seqStep_regs (hx : Encodes (instrMemRead imem a.pc) x) (h0 : a.regs 0 = 0) :
    ((core imem).seqStep a).regs = x.nextRegs (dataMemRead a.mem) a.pc a.regs := by
  unfold Instr.nextRegs
  cases hr : x.result (dataMemRead a.mem) a.pc a.regs with
  | some rv =>
      show ((core imem).seqWb a).apply a.regs = _
      rw [seqWb_of_result hx hr]
      exact update_eq_writeReg h0 rv.1 rv.2
  | none =>
      have hwr : ((core imem).seqWb a).wrEn = false := by
        show ((core imem).seqDec a).rfEn = false
        rw [(seqDec_issues hx).rfEn]
        cases x <;> simp [Instr.result] at hr ⊢
        rfl
      exact if_neg (by simp [hwr])

theorem seqStep_mem (hx : Encodes (instrMemRead imem a.pc) x) :
    ((core imem).seqStep a).mem = a.mem := by
  have h := seqDec_issues hx
  show dataMemWrite a.mem ((core imem).seqDec a).memWr _ _ = _
  rw [h.memWr]
  cases hx <;> rfl

theorem seqStep_pc (hx : Encodes (instrMemRead imem a.pc) x) :
    ((core imem).seqStep a).pc = x.nextPc a.pc a.regs := by
  have h := seqDec_issues hx
  have htaken : (core imem).seqTaken a = _ := h.taken hx _ _
  have hjump : (core imem).jump ((core imem).seqDec a) = x.isJal := h.jump
  have htarget : (core imem).brnTarget ((core imem).seqDec a) = a.pc + x.extImm :=
    h.nextBrnPc
  have hseq : (core imem).nextSeq a.pc = a.pc + 4 := by simp [core]
  have hjmp : ∀ n, (core imem).jumpTarget (instrMemRead imem a.pc) a.pc n =
      a.pc + x.extImm := fun n =>
    @nextJmpPc_eq x { instr := instrMemRead imem a.pc, currPc := a.pc, nextPc := n } hx
  show (core imem).seqPcNext a = _
  unfold Core.seqPcNext
  rw [htaken, hjump, htarget, hseq, seqDec_rs1, seqDec_rs2]
  rw [show (core imem).imem = instrMemRead imem from rfl, hjmp]
  cases hx <;> simp [Instr.isJal, Instr.nextPc, Instr.extImm]

end Sequential

end SimpleCpu.RiscV
