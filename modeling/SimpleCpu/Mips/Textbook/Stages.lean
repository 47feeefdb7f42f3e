import SimpleCpu.Mips.IssCorrect
import SimpleCpu.Mips.Textbook.Top

/-!
# Instructions in the stages of the textbook pipeline

What ID, EX, MEM and WB hold of one instruction (`Passes`, `Done`) and what they hold in
between (`Inert`), and how that moves from stage to stage.  The control unit and the
arithmetic of the instructions are dealt with once, in `issued_passes`.
-/

namespace SimpleCpu.Mips.Textbook

open SimpleCpu.Mips.Isa

/-- The instructions the control unit supports, less loads and stores, and with a
destination other than register 0. -/
def isTextbook : Instr → Bool
  | .r f rd _ _ => (f ∈ [RFun.add, .sub, .and, .or, .slt]) && rd != 0
  | .i f rt _ _ => (f ∈ [IFun.addi, .andi, .ori, .slti]) && rt != 0
  | .b .. | .j _ => true
  | _ => false

/-- Branches and jumps. -/
def leaves : Instr → Bool
  | .b .. | .j _ => true
  | _ => false

/-! ## Control -/

/-- The code the ALU is given. -/
def aluCode : Instr → BitVec 4
  | .r .sub .. | .b .. => 0b0001
  | .r .and .. | .i .andi .. => 0b0010
  | .r .or .. | .i .ori .. => 0b0011
  | .r .slt .. | .i .slti .. => 0b0101
  | _ => 0b0000

/-- The outputs of the control unit that do not depend on what was held. -/
def controlOf : Instr → Control
  | .r .. => { aluOp := some 0b010, regDest := true, regWrite := true, isRType := true }
  | .i .addi .. => { aluOp := some 0b000, regWrite := true, aluSrc := true, isIType := true }
  | .i .slti .. => { aluOp := some 0b111, regWrite := true, aluSrc := true, isIType := true }
  | .i .andi .. => { aluOp := some 0b011, regWrite := true, aluSrc := true, isIType := true }
  | .i .. => { aluOp := some 0b100, regWrite := true, aluSrc := true, isIType := true }
  | .b .beq .. => { aluOp := some 0b001, branch := true, isIType := true }
  | .b .bne .. =>
      { aluOp := some 0b001, branch := true, invertZero := true, isIType := true }
  | _ => { aluOp := none, jump := true, isJType := true }

/-- Every instruction of the class has a type. -/
theorem controlOf_typed : ∀ x, isTextbook x = true →
    ((controlOf x).isRType || (controlOf x).isIType || (controlOf x).isJType) = true
  | .r .., _ | .j _, _ => rfl
  | .i f .., _ => by cases f <;> rfl
  | .b f .., _ => by cases f <;> rfl

/-- What stays in sequence writes a register, and only that. -/
theorem controlOf_of_stays : ∀ x, isTextbook x = true → leaves x = false →
    (controlOf x).branch = false ∧ (controlOf x).invertZero = false ∧
      (controlOf x).jump = false
  | .r .., _, _ => ⟨rfl, rfl, rfl⟩
  | .i f .., _, _ => by cases f <;> exact ⟨rfl, rfl, rfl⟩

theorem controlOf_of_leaves : ∀ x, leaves x = true → (controlOf x).regWrite = false
  | .j _, _ => rfl
  | .b f .., _ => by cases f <;> rfl

section Control

variable {w : BitVec 32} {x : Instr}

theorem mem_of_isTextbook_r {f : RFun} {rd rs rt : BitVec 5}
    (h : isTextbook (.r f rd rs rt) = true) : f ∈ [RFun.add, .sub, .and, .or, .slt] := by
  simp only [isTextbook, Bool.and_eq_true, decide_eq_true_eq] at h
  exact h.1

theorem mem_of_isTextbook_i {f : IFun} {rt rs : BitVec 5} {imm : BitVec 16}
    (h : isTextbook (.i f rt rs imm) = true) : f ∈ [IFun.addi, .andi, .ori, .slti] := by
  simp only [isTextbook, Bool.and_eq_true, decide_eq_true_eq] at h
  exact h.1

/-- No instruction of the class is the all-zero word. -/
theorem word_ne_zero (h : Encodes w x) (hc : isTextbook x = true) : w ≠ 0 := by
  rintro rfl
  cases h with
  | r _ hf | i hf | b hf => exact absurd hf.symm (Option.some_ne_none _)
  | j hop => exact absurd hop (by decide)
  | sh | lw | sw | bz | jal => simp [isTextbook] at hc

theorem controlUnit_eq (h : Encodes w x) (hc : isTextbook x = true)
    (held : Option (BitVec 3)) : controlUnit held (op w) (funct w) w = controlOf x := by
  have hw := word_ne_zero h hc
  unfold controlUnit
  rw [if_neg hw]
  cases h with
  | @r f hop hf =>
      rw [hop, eq_code_of_rFun hf]
      cases f <;> rfl
  | @i f hf =>
      rw [eq_code_of_iFun hf]
      cases f with
      | addi | slti | andi | ori => rfl
      | addiu | sltiu | xori => exact absurd hc Bool.false_ne_true
  | @b f hf =>
      rw [eq_code_of_brnFun hf]
      cases f <;> rfl
  | j hop =>
      rw [hop]
      rfl
  | sh | lw | sw | bz | jal => simp [isTextbook] at hc

theorem aluControl_eq (h : Encodes w x) (hc : isTextbook x = true) (hj : x ≠ .j (target w))
    (held : BitVec 4) : aluControl held (funct w) (controlOf x).aluOp = aluCode x := by
  cases h with
  | @r f hop hf =>
      rw [eq_code_of_rFun hf]
      cases f with
      | add | sub | and | or | slt => rfl
      | addu | subu | xor | nor | sltu => exact absurd hc Bool.false_ne_true
  | @i f hf =>
      cases f with
      | addi | slti | andi | ori => rfl
      | addiu | sltiu | xori => exact absurd hc Bool.false_ne_true
  | @b f hf => cases f <;> rfl
  | j => exact absurd rfl hj
  | sh | lw | sw | bz | jal => simp [isTextbook] at hc

/-- `Controlstall` recognises what leaves the sequence. -/
theorem isControl_eq (h : Encodes w x) (hc : isTextbook x = true) :
    isControl (op w) = leaves x := by
  cases h with
  | r hop =>
      rw [hop]
      rfl
  | @i f hf =>
      rw [eq_code_of_iFun hf]
      cases f <;> rfl
  | @b f hf =>
      rw [eq_code_of_brnFun hf]
      cases f <;> rfl
  | j hop =>
      rw [hop]
      rfl
  | sh | lw | sw | bz | jal => simp [isTextbook] at hc

end Control

/-! ## Dependences -/

def Control.types (c : Control) : Types where
  isIType := c.isIType
  isRType := c.isRType
  isJType := c.isJType

/-- The type flags of a word. -/
def typesOf (w : BitVec 32) : Types := (controlUnit none (op w) (funct w) w).types

/-- But for opcode 0 the control unit looks at nothing else. -/
theorem controlUnit_of_op {w : BitVec 32} (hw : w ≠ 0) {o : BitVec 6} (ho : o ≠ 0)
    (held : Option (BitVec 3)) (fn : BitVec 6) :
    controlUnit held o fn w = controlUnit none o 0 1 := by
  have hone : (1 : BitVec 32) ≠ 0 := by decide
  unfold controlUnit
  rw [if_neg hw, if_neg ho, if_neg hone, if_neg ho]

/-- The type flags do not depend on what the control unit held. -/
theorem controlUnit_types (held : Option (BitVec 3)) (w : BitVec 32) :
    (controlUnit held (op w) (funct w) w).types = typesOf w := by
  unfold typesOf
  by_cases hw : w = 0
  · unfold controlUnit
    rw [if_pos hw, if_pos hw]
  by_cases hop : op w = 0
  · unfold controlUnit
    rw [if_neg hw, if_neg hw, if_pos hop, if_pos hop]
    split <;> rfl
  · rw [controlUnit_of_op hw hop, controlUnit_of_op hw hop]

theorem dependsOn_zero (ird : BitVec 32) (types : Types) : dependsOn ird 0 types = false := by
  simp [dependsOn]

/-- An instruction leaves the sources of one that does not depend on it alone. -/
theorem nextRegs_of_not_dependsOn {w : BitVec 32} {x : Instr} (h : Encodes w x)
    (hc : isTextbook x = true) {ird : BitVec 32} (hdep : dependsOn ird w (typesOf w) = false)
    {r : BitVec 5} (hr : r = rs ird ∨ r = rt ird) (load : BitVec 32 → BitVec 32)
    (pc : BitVec 32) (regs : BitVec 5 → BitVec 32) : x.nextRegs load pc regs r = regs r := by
  have hw : (w != 0) = true := bne_iff_ne.mpr (word_ne_zero h hc)
  have htypes : typesOf w = (controlOf x).types := by
    unfold typesOf
    rw [controlUnit_eq h hc]
  have hkeep : ∀ d v, r ≠ d → writeReg regs d v r = regs r := fun d v hd => by
    unfold writeReg
    split
    · rfl
    · exact Function.update_of_ne hd _ _
  have hnames : ∀ d : BitVec 5,
      ((rs ird == d) = false ∧ (rt ird == d) = false) → r ≠ d := by
    intro d hd
    rw [beq_eq_false_iff_ne, beq_eq_false_iff_ne] at hd
    rcases hr with rfl | rfl
    · exact hd.1
    · exact hd.2
  rw [htypes] at hdep
  unfold dependsOn at hdep
  simp only [hw, Bool.true_and, Bool.or_eq_false_iff] at hdep
  cases h with
  | r =>
      refine hkeep _ _ (hnames _ ?_)
      have hdep' := hdep.1
      rw [show (controlOf (.r _ (rd w) (rs w) (rt w))).types.isRType = true from rfl,
        Bool.and_true, Bool.or_eq_false_iff] at hdep'
      exact hdep'
  | @i f =>
      refine hkeep _ _ (hnames _ ?_)
      have htype : (controlOf (.i f (rt w) (rs w) (imm16 w))).types.isIType = true := by
        cases f <;> rfl
      have hdep' := hdep.2
      rw [htype, Bool.and_true, Bool.or_eq_false_iff] at hdep'
      exact hdep'
  | b | j => rfl
  | sh | lw | sw | bz | jal => simp [isTextbook] at hc

/-! ## Arithmetic -/

theorem alu_slt (a b : BitVec 32) :
    alu a b 0b0101 = (BitVec.ofBool (a.slt b)).setWidth 32 := by
  have hbit : ∀ x : BitVec 32, x[31] = x.msb := fun x => by
    simp [BitVec.msb_eq_getLsbD_last]
  have hlt : a < b ↔ a.ult b = true := by simp [BitVec.ult, BitVec.lt_def]
  have halu : alu a b 0b0101 = if a.msb && !b.msb then 1 else if !a.msb && b.msb then 0
      else if a.ult b = true then 1 else 0 := by
    simp only [← hbit, ← hlt]
    rfl
  rw [halu]
  by_cases h : a.msb = b.msb
  · rw [BitVec.slt_eq_ult_of_msb_eq h, h]
    cases b.msb <;> cases a.ult b <;> rfl
  · rw [BitVec.slt_eq_not_ult_of_msb_neq h, BitVec.ult_eq_msb_of_msb_neq h]
    cases ha : a.msb <;> cases hb : b.msb
    · exact absurd (ha.trans hb.symm) h
    · rfl
    · rfl
    · exact absurd (ha.trans hb.symm) h

/-- The ALU does what register and immediate operations of the class ask for. -/
theorem alu_r {f : RFun} (hf : f ∈ [RFun.add, .sub, .and, .or, .slt]) (a b : BitVec 32)
    (rd rs rt : BitVec 5) : alu a b (aluCode (.r f rd rs rt)) = f.eval a b := by
  cases f with
  | add | sub | and | or => rfl
  | slt => exact alu_slt a b
  | addu | subu | xor | nor | sltu => exact absurd hf (by decide)

theorem alu_i {f : IFun} (hf : f ∈ [IFun.addi, .andi, .ori, .slti]) (a b : BitVec 32)
    (rt rs : BitVec 5) (imm : BitVec 16) :
    alu a b (aluCode (.i f rt rs imm)) = f.rFun.eval a b := by
  cases f with
  | addi | andi | ori => rfl
  | slti => exact alu_slt a b
  | addiu | sltiu | xori => exact absurd hf (by decide)

/-- The immediate is extended as the operation asks for. -/
theorem signExt_i {f : IFun} (hf : f ∈ [IFun.addi, .andi, .ori, .slti]) (held : BitVec 32)
    (rt rs : BitVec 5) (imm : BitVec 16) (branch : Bool) (hb : branch = false) :
    signExt held imm (aluCode (.i f rt rs imm)) branch = f.extImm imm := by
  subst hb
  cases f with
  | addi | slti | andi | ori => rfl
  | addiu | sltiu | xori => exact absurd hf (by decide)

/-! ## Stages -/

/-- What the write-back register writes, and where. -/
def MemWb.written (b : MemWb) : Option (BitVec 5 × BitVec 32) :=
  if b.regWrite then some (b.writeReg, b.wbData) else none

/-- The write-back register holds the word `w`, which writes `v`. -/
structure Done (w : BitVec 32) (v : Option (BitVec 5 × BitVec 32)) (b : MemWb) : Prop where
  instr : b.instr = w
  valid : b.valid = true
  written : b.written = v

/-- The memory stage holds the word `w` from address `pc`, which writes `v` and is
followed by the instruction at `next`. -/
structure Passes (w : BitVec 32) (v : Option (BitVec 5 × BitVec 32)) (pc next : BitVec 32)
    (m : ExMem) : Prop where
  instr : m.instr = w
  done : ∀ outputData, Done w v (m.toWb outputData)
  stays : isControl (op w) = false → (m.branchEnable || m.jump) = false
  next : (if m.branchEnable || m.jump then m.npcValue else pc + 4) = next

/-- The stage is empty. -/
structure InertWb (b : MemWb) : Prop where
  instr : b.instr = 0
  regWrite : b.regWrite = false

structure InertMem (m : ExMem) : Prop where
  instr : m.instr = 0
  regWrite : m.regWrite = false
  stays : (m.branchEnable || m.jump) = false

theorem InertMem.toWb {m : ExMem} (h : InertMem m) (outputData : BitVec 32) :
    InertWb (m.toWb outputData) :=
  ⟨h.instr, h.regWrite⟩

section Issue

variable {s : Top} {w pc : BitVec 32} {x : Instr}

/-- An empty ID passes nothing on. -/
theorem issued_inert (h : s.ifId.instr = 0) : InertMem (s.issued false).toMem := by
  have hctl : s.control = { aluOp := some 0b000 } := by
    unfold Top.control controlUnit
    rw [if_pos h]
  refine ⟨h, ?_, ?_⟩
  · show s.control.regWrite = false
    rw [hctl]
  · show ((if s.control.invertZero then !(_ && s.control.branch) else _ && s.control.branch) ||
      s.control.jump) = false
    rw [hctl]
    simp

/-- The word and the fall-through address in ID. -/
structure InId (s : Top) (w pc : BitVec 32) : Prop where
  instr : s.ifId.instr = w
  nextPc : s.ifId.nextPc = pc + 4

theorem control_eq (h : Encodes w x) (hc : isTextbook x = true) (hid : InId s w pc) :
    s.control = controlOf x := by
  unfold Top.control
  rw [hid.instr]
  exact controlUnit_eq h hc _

theorem aluCtrl_eq (h : Encodes w x) (hc : isTextbook x = true) (hid : InId s w pc)
    (hj : x ≠ .j (target w)) : s.aluCtrl = aluCode x := by
  unfold Top.aluCtrl
  rw [control_eq h hc hid, hid.instr]
  exact aluControl_eq h hc hj _

/-- The result of an instruction that has read its registers. -/
theorem issued_result (h : Encodes w x) (hc : isTextbook x = true) (hid : InId s w pc)
    (hl : leaves x = false) {regs : BitVec 5 → BitVec 32}
    (ha : s.regFile (rs w) = regs (rs w)) (hb : s.regFile (rt w) = regs (rt w))
    (load : BitVec 32 → BitVec 32) (outputData : BitVec 32) :
    ((s.issued false).toMem.toWb outputData).written = x.result load pc regs := by
  show (if s.control.regWrite then
    some (if s.control.regDest then s.ifId.instr.extractLsb' 11 5
        else s.ifId.instr.extractLsb' 16 5,
      if s.control.memToReg then outputData else
        alu (s.regFile (s.ifId.instr.extractLsb' 21 5))
          (if s.control.aluSrc then s.outSignExt
            else s.regFile (s.ifId.instr.extractLsb' 16 5)) s.aluCtrl) else none) = _
  have hctl := control_eq h hc hid
  have halu := aluCtrl_eq h hc hid (by rintro rfl; exact absurd hl nofun)
  have hsign : s.outSignExt =
      signExt s.latches.outSignExt (imm16 w) (aluCode x) (controlOf x).branch := by
    unfold Top.outSignExt
    rw [hctl, halu, hid.instr]
    rfl
  rw [hctl, halu, hsign, hid.instr, show w.extractLsb' 21 5 = rs w from rfl,
    show w.extractLsb' 16 5 = rt w from rfl, ha, hb]
  cases h with
  | r hop hf =>
      have hres := alu_r (mem_of_isTextbook_r hc) (regs (rs w)) (regs (rt w)) (rd w) (rs w) (rt w)
      exact congrArg (fun v => some (rd w, v)) hres
  | @i f hf =>
      have hmem := mem_of_isTextbook_i hc
      have hctlI : (controlOf (.i f (rt w) (rs w) (imm16 w))).regWrite = true ∧
          (controlOf (.i f (rt w) (rs w) (imm16 w))).regDest = false ∧
          (controlOf (.i f (rt w) (rs w) (imm16 w))).memToReg = false ∧
          (controlOf (.i f (rt w) (rs w) (imm16 w))).aluSrc = true ∧
          (controlOf (.i f (rt w) (rs w) (imm16 w))).branch = false := by
        cases f <;> exact ⟨rfl, rfl, rfl, rfl, rfl⟩
      obtain ⟨h1, h2, h3, h4, h5⟩ := hctlI
      rw [h1, h2, h3, h4, h5, signExt_i hmem _ _ _ _ _ rfl]
      simp only [if_true, Bool.false_eq_true, if_false]
      rw [alu_i hmem]
      rfl
  | sh | lw | sw | bz | jal => simp [isTextbook] at hc
  | b | j => exact absurd hl nofun

/-- `branchEnable` of a branch that has read its registers. -/
theorem issued_branchEnable {f : BrnFun} {rs rt : BitVec 5} {imm : BitVec 16}
    (hctl : s.control = controlOf (.b f rs rt imm)) (halu : s.aluCtrl = 0b0001)
    {a b : BitVec 32} (ha : s.regFile (s.ifId.instr.extractLsb' 21 5) = a)
    (hb : s.regFile (s.ifId.instr.extractLsb' 16 5) = b) :
    (s.issued false).toMem.branchEnable = f.eval a b := by
  show (if s.control.invertZero then
      !(alu (s.regFile (s.ifId.instr.extractLsb' 21 5))
          (if s.control.aluSrc then s.outSignExt
            else s.regFile (s.ifId.instr.extractLsb' 16 5)) s.aluCtrl == 0 &&
        s.control.branch)
    else
      alu (s.regFile (s.ifId.instr.extractLsb' 21 5))
          (if s.control.aluSrc then s.outSignExt
            else s.regFile (s.ifId.instr.extractLsb' 16 5)) s.aluCtrl == 0 &&
        s.control.branch) = _
  rw [hctl, halu, ha, hb]
  have hsub : (a - b == 0#32) = (a == b) := by
    rw [Bool.eq_iff_iff, beq_iff_eq, beq_iff_eq, BitVec.sub_eq_iff_eq_add, BitVec.zero_add]
  cases f with
  | beq =>
      show (a - b == 0#32 && true) = (a == b)
      rw [Bool.and_true, hsub]
  | bne =>
      show (!(a - b == 0#32 && true)) = !(a == b)
      rw [Bool.and_true, hsub]

/-- The target of a branch that is taken. -/
theorem issued_nextPcBranch {f : BrnFun} {rs rt : BitVec 5}
    (hctl : s.control = controlOf (.b f rs rt (imm16 w))) (hid : InId s w pc) :
    (s.issued false).toMem.nextPcBranch = branchTarget pc (imm16 w) := by
  have hb : s.control.branch = true := by
    rw [hctl]
    cases f <;> rfl
  have hsign : s.outSignExt = (imm16 w).signExtend 32 := by
    unfold Top.outSignExt signExt
    rw [hid.instr, if_pos (Or.inr (Or.inr hb))]
    rfl
  show s.ifId.nextPc + (s.outSignExt <<< 2) = _
  rw [hid.nextPc, hsign]
  rfl

/-- The target of a jump. -/
theorem issued_npc1 (hid : InId s w pc) :
    (s.issued false).toMem.npc1 = jumpTarget pc (target w) := by
  show s.ifId.nextPc.extractLsb' 28 4 ++ (s.ifId.instr.extractLsb' 0 26 ++ 0#2) = _
  rw [hid.instr, hid.nextPc, jumpTarget_eq_append]
  rfl

/-- What leaves ID once its registers are up to date. -/
theorem issued_passes (h : Encodes w x) (hc : isTextbook x = true) (hid : InId s w pc)
    {regs : BitVec 5 → BitVec 32}
    (hops : x ≠ .j (target w) →
      s.regFile (rs w) = regs (rs w) ∧ s.regFile (rt w) = regs (rt w))
    (load : BitVec 32 → BitVec 32) :
    Passes w (x.result load pc regs) pc (x.nextPc pc regs) (s.issued false).toMem := by
  have hctl := control_eq h hc hid
  have hstays : leaves x = false →
      ((s.issued false).toMem.branchEnable || (s.issued false).toMem.jump) = false := by
    intro hl
    obtain ⟨hb, hi, hj⟩ := controlOf_of_stays x hc hl
    show ((if s.control.invertZero then !(_ && s.control.branch) else _ && s.control.branch) ||
      s.control.jump) = false
    rw [hctl, hb, hi, hj]
    simp
  refine ⟨hid.instr, fun outputData => ⟨hid.instr, ?_, ?_⟩, fun hn => ?_, ?_⟩
  · show ((s.control.isRType || s.control.isIType || s.control.isJType) && !false) = true
    rw [hctl, controlOf_typed x hc]
    rfl
  · cases hl : leaves x with
    | false =>
        obtain ⟨ha, hb⟩ := hops (by rintro rfl; exact absurd hl nofun)
        exact issued_result h hc hid hl ha hb load outputData
    | true =>
        show (if s.control.regWrite then _ else none) = _
        rw [hctl, controlOf_of_leaves x hl]
        cases x with
        | b | j => rfl
        | r | sh | i | lw | sw | bz | jal => exact absurd hl nofun
  · exact hstays ((isControl_eq h hc).symm.trans hn)
  · cases h with
    | @b f hf =>
        obtain ⟨ha, hb⟩ := hops nofun
        have henable :
            (s.issued false).toMem.branchEnable = f.eval (regs (rs w)) (regs (rt w)) := by
          refine issued_branchEnable hctl (aluCtrl_eq (.b hf) hc hid nofun) ?_ ?_
          · rw [hid.instr]
            exact ha
          · rw [hid.instr]
            exact hb
        have hjump : (s.issued false).toMem.jump = false := by
          show s.control.jump = false
          rw [hctl]
          cases f <;> rfl
        unfold ExMem.npcValue
        rw [hjump, henable, issued_nextPcBranch hctl hid, Bool.or_false]
        simp only [Bool.false_eq_true, if_false, Instr.nextPc]
        split <;> rfl
    | j hop =>
        have hjump : (s.issued false).toMem.jump = true := by
          show s.control.jump = true
          rw [hctl]
          rfl
        unfold ExMem.npcValue
        rw [hjump, Bool.or_true, if_pos rfl, if_pos rfl]
        exact issued_npc1 hid
    | r | i =>
        rw [hstays rfl]
        rfl
    | sh | lw | sw | bz | jal => simp [isTextbook] at hc

end Issue

end SimpleCpu.Mips.Textbook
