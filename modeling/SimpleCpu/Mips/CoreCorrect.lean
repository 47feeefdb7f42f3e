import SimpleCpu.Mips.Core
import SimpleCpu.Mips.Datapath

/-!
# The MIPS pipeline follows the instructions

What the general pipeline asks of this one, for every word and for the words that
encode an instruction, and what an instruction does when it is run through the
functions of the pipeline on its own (`seqStep_regs`, `seqStep_mem`, `seqStep_pc`).
-/

namespace SimpleCpu.Mips

open SimpleCpu.Bits SimpleCpu.Rtl SimpleCpu.Pipeline SimpleCpu.Mips.Isa

/-! ## The issue stage -/

/-- What the execute stage is told about an instruction. -/
structure Issues (x : Instr) (iss : IssPipeReg) (out : IssueOut) : Prop where
  jump : out.jump = x.isJump
  branch : out.branch = x.isBranch
  regWr : out.regWr = x.controls.regWr
  memToReg : out.memToReg = x.controls.memToReg
  memWr : out.memWr = x.controls.memWr
  aluOp : out.aluOp = x.controls.aluOp
  aluSrc : out.aluSrc = x.controls.aluSrc
  isLw : out.isLw = x.controls.memToReg
  useLinkReg : out.useLinkReg = x.links
  rt : out.rt = rt iss.instr
  rs : out.rs = x.source1 iss.instr
  rd : x.controls.regWr = true ∨ x.links = true → out.rd = x.dest
  operand2 : ∀ v2, aluOperand2 out.aluSrc out.shamt out.signImm v2 = x.operand2 v2
  nextSeqPc : out.nextSeqPc = iss.nextPc

/-- The decoder finds an R-type word only where the opcode says so. -/
theorem isRType_op {w : Word} (h : (decode w).isRType = true) : op w = 0 := by
  have h' : (op w == 0 && _) = true := h
  simp only [Bool.and_eq_true, beq_iff_eq] at h'
  exact h'.1

/-- No other opcode is that of `LW`. -/
theorem iFun_ne_lw : ∀ o : BitVec 6, ∀ f ∈ iFun o, (o == Defines.LW) = false := by
  decide

theorem brnFun_ne_lw : ∀ o : BitVec 6, ∀ f ∈ brnFun o, (o == Defines.LW) = false := by
  decide

theorem zFun_ne_lw : ∀ (o : BitVec 6) (v : BitVec 5), ∀ f ∈ zFun o v,
    (o == Defines.LW) = false := by
  decide +kernel

/-- `is_lw_dec` of an instruction that is encoded. -/
theorem isLw_eq {w : Word} {x : Instr} (h : Encodes w x) :
    (decode w).isLw = x.controls.memToReg := by
  unfold Decode.isLw decode
  rw [decodeFields_eq]
  cases h with
  | r hop | sh hop | lw hop | sw hop | j hop | jal hop => simp [hop, Instr.controls]
  | i hf =>
      simp only [iFun_ne_lw _ _ hf]
      simp [Instr.controls]
  | b hf =>
      simp only [brnFun_ne_lw _ _ hf]
      simp [Instr.controls]
  | bz hf =>
      simp only [zFun_ne_lw _ _ _ hf]
      simp [Instr.controls]

/-- What the issue stage makes of an instruction that is encoded. -/
theorem issues {x : Instr} {iss : IssPipeReg} (h : Encodes iss.instr x) :
    Issues x iss (issueStage false iss) := by
  have hc : control (decode iss.instr).op (decode iss.instr).funct = x.controls :=
    control_eq h
  have hj : x.controls.jump = x.isJump := by cases x <;> rfl
  have hb : x.controls.branch = x.isBranch := by cases x <;> rfl
  exact
    { jump := (congrArg Controls.jump hc).trans hj
      branch := (congrArg Controls.branch hc).trans hb
      regWr := congrArg Controls.regWr hc
      memToReg := congrArg Controls.memToReg hc
      memWr := congrArg Controls.memWr hc
      aluOp := congrArg Controls.aluOp hc
      aluSrc := congrArg Controls.aluSrc hc
      isLw := isLw_eq h
      useLinkReg := useLinkReg_eq h isRType_op
      rt := rfl
      rs := (congrArg (Decode.readReg1 _) hc).trans (readReg1_eq h _)
      rd := fun hw => (congrArg (Decode.writeReg _) hc).trans (writeReg_eq h isRType_op hw)
      operand2 := fun v2 => by
        rw [← aluOperand2_eq h _ v2, ← hc]
        rfl
      nextSeqPc := rfl }

/-- Every word but the shift of zeros is marked valid. -/
theorem issueStage_valid_iff (iss : IssPipeReg) :
    (issueStage false iss).valid = true ↔ ¬ IsNop iss.instr := by
  show (((decode iss.instr).isRType || (decode iss.instr).isIType ||
    (decode iss.instr).isJType) && !false) = true ↔ _
  generalize iss.instr = w
  have hR : (decode w).isRType = (op w == 0 &&
    !(funct w == 0 && shamt w == 0 && rt w == 0 && rd w == 0)) := rfl
  have hIJ : ((decode w).isIType || (decode w).isJType) = (op w != 0 &&
      (op w != Defines.J && op w != Defines.JAL) ||
        (op w == Defines.J || op w == Defines.JAL)) := rfl
  rw [Bool.or_assoc, Bool.not_false, Bool.and_true, hIJ, hR]
  unfold IsNop
  by_cases hop : op w = 0
  · have hfields : (funct w == 0 && shamt w == 0 && rt w == 0 && rd w == 0) = true ↔
        funct w = 0 ∧ shamt w = 0 ∧ rt w = 0 ∧ rd w = 0 := by
      simp only [Bool.and_eq_true, beq_iff_eq, and_assoc]
    rw [hop, ← hfields]
    generalize (funct w == 0 && shamt w == 0 && rt w == 0 && rd w == 0) = zeros
    cases zeros <;> decide
  · have hop' : (op w != 0) = true := bne_iff_ne.mpr hop
    have hother : ((op w != Defines.J && op w != Defines.JAL) ||
        (op w == Defines.J || op w == Defines.JAL)) = true := by
      rw [bne, bne]
      cases op w == Defines.J <;> cases op w == Defines.JAL <;> rfl
    rw [hop', Bool.true_and, hother, Bool.or_true]
    exact iff_of_true rfl fun h => hop h.1

/-- Every instruction but the all-zero shift is marked valid. -/
theorem issueStage_valid {x : Instr} {iss : IssPipeReg} (h : Encodes iss.instr x)
    (hx : x ≠ .sh .sll 0 0 0) : (issueStage false iss).valid = true := by
  rw [issueStage_valid_iff]
  rintro ⟨hop, hfn, hsh, hrt, hrd⟩
  cases h with
  | r _ hf =>
      rw [hfn] at hf
      exact Option.some_ne_none _ hf.symm
  | @sh f _ hf =>
      rw [hfn] at hf
      obtain rfl : ShFun.sll = f := Option.some.inj hf
      exact hx (by rw [hsh, hrt, hrd])
  | i hf => exact (iFun_op _ _ hf).1 hop
  | b hf => exact (brnFun_op _ _ hf).1 hop
  | bz hf => exact (zFun_op _ _ _ hf).1 hop
  | lw h' | sw h' | j h' | jal h' =>
      rw [h'] at hop
      exact absurd hop (by decide)

/-! ## What the general pipeline asks for -/

section Laws

variable {imem : Word → Word}

/-- An instruction that writes at most register 0 and redirects nothing. -/
theorem inertDec {d : IssueOut} (hv : d.valid = false) (hj : d.jump = false)
    (hb : d.branch = false) (hr : d.regWr = true → d.rd = 0) (hm : d.memWr = false)
    (hl : d.useLinkReg = false) : (core imem).InertDec d where
  jump := hj
  branch := hb
  exec v1 v2 :=
    { fwdEn := hr
      store := by
        simp [core, IssueOut.toMem, MemPipeReg.masked, hm, dataMemWrite, dataMemWriteAt]
      finish := fun mem =>
        { valid := hv
          wrEn := fun hw => by
            have hw' : (d.regWr || d.useLinkReg) = true := hw
            have hrd : d.rd = 0 := hr (by simpa [hl] using hw')
            refine ⟨hrd, ?_⟩
            simp [core, WbPipeReg.abs, WbPipeReg.wrData, MemPipeReg.toWb, MemPipeReg.masked,
              IssueOut.toMem, wrDataRf, hl, hrd] } }

/-- A flushed issue register holds the all-zero shift, which writes register 0. -/
theorem inertDec_bubble : (core imem).InertDec (issueStage false {}) :=
  inertDec (by decide) (by decide) (by decide) (fun _ => by decide) (by decide) (by decide)

theorem lawful : (core imem).Lawful where
  taken_branch d v1 v2 ht := by
    have ht' : d.branchTaken (d.alu v1 v2) = true := ht
    show d.branch = true
    unfold IssueOut.branchTaken Mips.branchTaken at ht'
    cases hb : d.branch with
    | true => rfl
    | false => simp [hb] at ht'
  seqPc_decode i p n := rfl
  finish_rd m mem := rfl
  finish_fwdEn m mem := rfl
  fwdEn_wrEn m mem hf := by
    show (m.regWr || m.useLinkReg) = true
    rw [show m.regWr = true from hf, Bool.true_or]
  issBubble_pred := rfl
  issBubble_inert := inertDec_bubble
  exBubble_pred := rfl
  exBubble_inert := inertDec rfl rfl rfl (fun _ => rfl) rfl rfl

/-- What an instruction writes back. -/
theorem finish_exec (d : IssueOut) (v1 v2 : Word) (mem : Dmem) :
    (core imem).finish ((core imem).exec d v1 v2) mem =
      { valid := d.valid, wrEn := d.regWr || d.useLinkReg, fwdEn := d.regWr, rd := d.rd
        data :=
          if d.regWr || d.useLinkReg then
            wrDataRf d.useLinkReg d.nextSeqPc d.rd d.memToReg
              (dataMemRead mem (d.alu v1 v2).res) (d.alu v1 v2).res
          else 0 } :=
  toWb_masked (d.toMem v1 v2) mem

/-- No row of the control table both jumps and branches. -/
theorem controlR_jump : ∀ fn : BitVec 6, (Controls.ofBits (controlR fn)).jump = false := by
  decide +kernel

theorem controlRow_jump : ∀ o : BitVec 6, ∀ c ∈ (controlRow o).map Controls.ofBits,
    c.jump = true → c.branch = false := by
  decide +kernel

theorem control_jump (o fn : BitVec 6) (h : (control o fn).jump = true) :
    (control o fn).branch = false := by
  unfold control controlTable at h ⊢
  split at h
  next => simp [controlR_jump] at h
  next hop =>
    rw [if_neg hop]
    cases hrow : controlRow o with
    | some row =>
        rw [hrow] at h
        exact controlRow_jump o _ (by rw [hrow]; rfl) h
    | none =>
        rw [hrow] at h
        exact absurd h (by decide)

/-- Every word is regular. -/
theorem regular (iss : IssPipeReg) : (core imem).Regular (issueStage false iss) where
  jump_not_branch hj := control_jump _ _ hj
  zeroData v1 v2 mem hw hrd := by
    have hrd' : (issueStage false iss).rd = 0 := hrd
    have hlink : (issueStage false iss).useLinkReg = false := by
      by_contra hl
      have hl' : (decode iss.instr).useLinkReg = true := by
        have hl'' : ¬ (decode iss.instr).useLinkReg = false := hl
        simpa using hl''
      have h31 : (issueStage false iss).rd = 0x1F := if_pos hl'
      rw [h31] at hrd'
      exact absurd hrd' (by decide)
    rw [finish_exec, hlink, hrd']
    simp [wrDataRf, core]

/-- The first operand does not matter to an instruction that writes neither registers
nor memory and is no branch. -/
theorem ignores1 {d : IssueOut} (h : (d.regWr || d.memWr || d.branch) = false) :
    (core imem).Ignores1 d := by
  simp only [Bool.or_eq_false_iff] at h
  obtain ⟨⟨hr, hm⟩, hb⟩ := h
  intro v1 v1' v2
  constructor
  · show (d.toMem v1 v2).masked = (d.toMem v1' v2).masked
    simp [IssueOut.toMem, MemPipeReg.masked, hr, hm]
  · show d.branchTaken _ = d.branchTaken _
    simp [IssueOut.branchTaken, Mips.branchTaken, hb]

/-- The second operand matters to stores, and to instructions that compute with it. -/
theorem ignores2 {d : IssueOut} (hm : d.memWr = false)
    (h : d.aluSrc = 0 → d.regWr = false ∧ d.branch = false) : (core imem).Ignores2 d := by
  intro v1 v2 v2'
  by_cases hsrc : d.aluSrc = 0
  · obtain ⟨hr, hb⟩ := h hsrc
    constructor
    · show (d.toMem v1 v2).masked = (d.toMem v1 v2').masked
      simp [IssueOut.toMem, MemPipeReg.masked, hr, hm]
    · show d.branchTaken _ = d.branchTaken _
      simp [IssueOut.branchTaken, Mips.branchTaken, hb]
  · have halu : d.alu v1 v2 = d.alu v1 v2' := by
      have hbits : ∀ a : BitVec 3, a ≠ 0 → a[2] = true ∨ a[1] = true ∨ a[0] = true := by
        decide
      unfold IssueOut.alu aluOperand2
      rcases hbits _ hsrc with h2 | h1 | h0 <;> simp [*]
    constructor
    · show (d.toMem v1 v2).masked = (d.toMem v1 v2').masked
      simp [IssueOut.toMem, MemPipeReg.masked, halu, hm]
    · show d.branchTaken (d.alu v1 v2) = d.branchTaken (d.alu v1 v2')
      rw [halu]

/-- The first mux forwards what an instruction that is encoded writes back. -/
theorem Issues.forwards {x : Instr} {iss : IssPipeReg} {d : IssueOut} (h : Issues x iss d) :
    (core imem).Forwards d := by
  intro hj v1 v2 mem hf hrd
  have hj' : x.isJump = false := h.jump.symm.trans hj
  have hf' : x.controls.regWr = true := h.regWr.symm.trans hf
  have hrd' : d.rd ≠ 0 := hrd
  have hlink : d.useLinkReg = false := by
    rw [h.useLinkReg]
    cases x <;> simp [Instr.controls, Instr.links, Instr.isJump] at hf' hj' ⊢
  have hr : d.regWr = true := h.regWr.trans hf'
  rw [finish_exec]
  simp only [core, MemPipeReg.masked, IssueOut.toMem, wrDataRf]
  simp [hlink, hr, h.isLw, h.memToReg]
  exact fun h0 => absurd h0 hrd'

end Laws

/-! ## Running instructions one at a time -/

theorem Issues.alu_res {x : Instr} {iss : IssPipeReg} {d : IssueOut} (h : Issues x iss d)
    (v1 v2 : Word) : (d.alu v1 v2).res = x.aluRes v1 v2 := by
  unfold IssueOut.alu
  rw [h.operand2, h.aluOp]
  exact alu_res_eq x v1 v2

section Sequential

variable {imem : Word → Word} {a : Arch Word (BitVec 5) Dmem} {x : Instr}

theorem seqDec_issues (hx : Encodes (instrMemRead imem a.pc) x) :
    Issues x { instr := instrMemRead imem a.pc, currPc := a.pc
               nextPc := (adder a.pc 0x4 false).sum } ((core imem).seqDec a) :=
  issues hx

theorem seqDec_regular : (core imem).Regular ((core imem).seqDec a) :=
  regular _

theorem seqDec_rs1 (hx : Encodes (instrMemRead imem a.pc) x) :
    (core imem).rs1 ((core imem).seqDec a) = x.source1 (instrMemRead imem a.pc) :=
  (seqDec_issues hx).rs

theorem seqDec_rs2 :
    (core imem).rs2 ((core imem).seqDec a) = rt (instrMemRead imem a.pc) := rfl

theorem seqWb_valid (hx : Encodes (instrMemRead imem a.pc) x) (hnop : x ≠ .sh .sll 0 0 0) :
    ((core imem).seqWb a).valid = true :=
  @issueStage_valid x { instr := instrMemRead imem a.pc, currPc := a.pc
                        nextPc := (adder a.pc 0x4 false).sum } hx hnop

theorem dataMemRead_align (dmem : Dmem) (addr : Word) :
    dataMemRead dmem (addr &&& 0xFFFFFFFC) = dataMemRead dmem addr :=
  dataMemReadAt_align (by decide) addr

/-- The write-back of an instruction with a result. -/
theorem seqWb_of_result (hx : Encodes (instrMemRead imem a.pc) x) {rd : BitVec 5}
    {v : Word} (hr : x.result (dataMemRead a.mem) a.pc a.regs = some (rd, v)) :
    (core imem).seqWb a =
      { valid := ((core imem).seqDec a).valid, wrEn := true, fwdEn := x.controls.regWr
        rd := rd, data := if rd ≠ 0 then v else 0 } := by
  have h := seqDec_issues hx
  rw [result_eq hx] at hr
  split at hr
  next hwr =>
    obtain ⟨rfl, rfl⟩ := Prod.mk.inj (Option.some.inj hr)
    have hdest := h.rd (by simpa using hwr)
    show (core imem).finish ((core imem).exec _ _ _) _ = _
    rw [finish_exec, h.alu_res, seqDec_rs1 hx, seqDec_rs2]
    simp only [h.regWr, h.useLinkReg, hwr, hdest, h.memToReg, h.nextSeqPc, if_true,
      wrDataRf_dest, dataMemRead_align, adder_add]
  next => exact absurd hr nofun

theorem seqStep_regs (hx : Encodes (instrMemRead imem a.pc) x) (h0 : a.regs 0 = 0) :
    ((core imem).seqStep a).regs = x.nextRegs (dataMemRead a.mem) a.pc a.regs := by
  unfold Instr.nextRegs
  show ((core imem).seqWb a).apply a.regs = _
  cases hr : x.result (dataMemRead a.mem) a.pc a.regs with
  | some rv =>
      rw [seqWb_of_result hx hr]
      exact update_eq_writeReg h0 rv.1 rv.2
  | none =>
      have h := seqDec_issues hx
      have hwr : ((core imem).seqWb a).wrEn = false := by
        show (((core imem).seqDec a).regWr || ((core imem).seqDec a).useLinkReg) = false
        rw [h.regWr, h.useLinkReg]
        rw [result_eq hx] at hr
        cases hw : x.controls.regWr || x.links with
        | false => rfl
        | true =>
            rw [if_pos hw] at hr
            exact absurd hr nofun
      exact if_neg (by simp [hwr])

theorem dataMemWrite_align (dmem : Dmem) (addr value : Word) :
    dataMemWrite dmem true (addr &&& 0xFFFFFFFC) value = dataMemWrite dmem true addr value :=
  dataMemWriteAt_align (by decide) addr value

/-- Only a store changes memory. -/
theorem seqStep_mem (hx : Encodes (instrMemRead imem a.pc) x) :
    ((core imem).seqStep a).mem =
      match x.stored a.regs with
      | some (addr, value) => dataMemWrite a.mem true addr value
      | none => a.mem := by
  have h := seqDec_issues hx
  show dataMemWrite a.mem ((core imem).seqMid a).memWr ((core imem).seqMid a).resAlu
    ((core imem).seqMid a).rDataP2 = _
  have hwr : ((core imem).seqMid a).memWr = x.controls.memWr := h.memWr
  rw [hwr]
  cases hx with
  | sw =>
      have hres : ((core imem).seqMid a).resAlu =
          a.regs (rs (instrMemRead imem a.pc)) +
            (imm16 (instrMemRead imem a.pc)).signExtend 32 := by
        show (if ((core imem).seqDec a).regWr || ((core imem).seqDec a).memWr then _ else _) = _
        rw [h.regWr, h.memWr]
        exact (h.alu_res _ _).trans (congrArg (a.regs · + _) h.rs)
      have hdata : ((core imem).seqMid a).rDataP2 = a.regs (rt (instrMemRead imem a.pc)) := by
        show (if ((core imem).seqDec a).memWr then _ else _) = _
        rw [h.memWr]
        exact congrArg a.regs h.rt
      rw [hres, hdata]
      exact (dataMemWrite_align _ _ _).symm
  | r | sh | i | lw | b | bz | j | jal => exact dataMemWriteAt_false _ _

/-- The flags a branch looks at. -/
theorem alu_flags (x : Instr) (v1 v2 : Word) (hb : x.isBranch = true) :
    (alu v1 (x.operand2 v2) x.controls.aluOp).z = (v1 == x.operand2 v2) ∧
      (x.operand2 v2 = 0 → (alu v1 (x.operand2 v2) x.controls.aluOp).n = v1.slt 0) := by
  cases x with
  | b f rs rt imm =>
      refine ⟨alu_sub_z v1 v2, fun h0 => ?_⟩
      rw [h0]
      exact alu_sub_n v1 0
  | bz f rs imm =>
      cases f with
      | blez | bgtz => exact ⟨alu_add_zero_z v1, fun _ => alu_add_zero_n v1⟩
      | bltz | bgez | bltzal | bgezal => exact ⟨alu_sub_z v1 0, fun _ => alu_sub_n v1 0⟩
  | r | sh | i | lw | sw | j | jal => exact absurd hb nofun

/-- The branch decision. -/
theorem seqTaken_eq (hx : Encodes (instrMemRead imem a.pc) x) :
    (core imem).seqTaken a = x.taken (a.regs (x.source1 (instrMemRead imem a.pc)))
      (a.regs (rt (instrMemRead imem a.pc))) := by
  have h := seqDec_issues hx
  have halu : ∀ v1 v2, ((core imem).seqDec a).alu v1 v2 =
      alu v1 (x.operand2 v2) x.controls.aluOp := fun v1 v2 => by
    unfold IssueOut.alu
    rw [h.operand2, h.aluOp]
  have hbranch : ((core imem).seqDec a).branch = x.controls.branch :=
    congrArg Controls.branch (control_eq hx)
  show Mips.branchTaken ((core imem).seqDec a).branch (op (instrMemRead imem a.pc))
    (rt (instrMemRead imem a.pc)) (((core imem).seqDec a).alu _ _).z
    (((core imem).seqDec a).alu _ _).n = _
  rw [hbranch, halu, seqDec_rs1 hx, seqDec_rs2]
  refine branchTaken_eq hx _ _ ?_ ?_
  · exact fun hb => (alu_flags x _ _ hb).1
  · exact fun hb => (alu_flags x _ _ hb).2

/-- The branch target. -/
theorem seqDec_brnTarget (hx : Encodes (instrMemRead imem a.pc) x) (hb : x.isBranch = true) :
    (core imem).brnTarget ((core imem).seqDec a) =
      branchTarget a.pc (imm16 (instrMemRead imem a.pc)) := by
  have hsign : (decode (instrMemRead imem a.pc)).signImm
      (control (decode (instrMemRead imem a.pc)).op
        (decode (instrMemRead imem a.pc)).funct).signExt =
      (imm16 (instrMemRead imem a.pc)).signExtend 32 := by
    rw [show control (decode (instrMemRead imem a.pc)).op
      (decode (instrMemRead imem a.pc)).funct = x.controls from control_eq hx]
    cases x with
    | b | bz => rfl
    | r | sh | i | lw | sw | j | jal => exact absurd hb nofun
  show (adder (adder a.pc 0x4 false).sum ((decode (instrMemRead imem a.pc)).signImm
    (control (decode (instrMemRead imem a.pc)).op
      (decode (instrMemRead imem a.pc)).funct).signExt <<< 2) false).sum = _
  rw [hsign, adder_add, adder_add]
  rfl

/-- Where the next instruction is.  Jumps stay in the first 2^26 bytes. -/
theorem seqStep_pc (hx : Encodes (instrMemRead imem a.pc) x)
    (hbound : x.isJump = true → a.pc.toNat < 2 ^ 26 ∧
      (x.nextPc a.pc a.regs).toNat < 2 ^ 26) :
    ((core imem).seqStep a).pc = x.nextPc a.pc a.regs := by
  have h := seqDec_issues hx
  have hjump : (core imem).jump ((core imem).seqDec a) = x.isJump := h.jump
  have hseq : (core imem).nextSeq a.pc = a.pc + 4 := adder_add _ _
  have htarget := fun hb => seqDec_brnTarget hx hb
  show (core imem).seqPcNext a = _
  unfold Core.seqPcNext
  rw [hjump, seqTaken_eq hx, hseq]
  generalize (core imem).brnTarget ((core imem).seqDec a) = target at htarget ⊢
  show (if x.isJump = true then nextJmpPc (a.pc + 4) (instrMemRead imem a.pc) else _) = _
  generalize instrMemRead imem a.pc = w at hx htarget ⊢
  cases hx with
  | j | jal => exact nextJmpPc_eq (hbound rfl).1 (hbound rfl).2
  | b | bz =>
      rw [htarget rfl]
      rfl
  | r | sh | i | lw | sw => rfl

end Sequential

end SimpleCpu.Mips
