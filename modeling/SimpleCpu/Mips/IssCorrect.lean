import SimpleCpu.Mips.Isa
import SimpleCpu.Mips.Iss

/-!
# The simulator follows the instructions

`cycle_eq`: on a word that encodes an instruction, one `cycle` of the simulator does
what the instruction says, and nothing else.
-/

namespace SimpleCpu.Mips.Iss

open SimpleCpu.Bits SimpleCpu.Iss SimpleCpu.Mips.Isa

/-! ## Fields -/

section Fields

variable (w : BitVec 32)

theorem field_op : w >>> 26 &&& 0x3F = (op w).setWidth 32 := shr_and_mask w 26 6

theorem field_rs : w >>> 21 &&& 0x1F = (rs w).setWidth 32 := shr_and_mask w 21 5

theorem field_rt : w >>> 16 &&& 0x1F = (rt w).setWidth 32 := shr_and_mask w 16 5

theorem field_rd : w >>> 11 &&& 0x1F = (rd w).setWidth 32 := shr_and_mask w 11 5

theorem field_shamt : w >>> 6 &&& 0x1F = (shamt w).setWidth 32 := shr_and_mask w 6 5

theorem field_funct : w &&& 0x3F = (funct w).setWidth 32 := and_mask w 6

theorem field_imm16 : w &&& 0xFFFF = (imm16 w).setWidth 32 := and_mask w 16

theorem field_target : w &&& 0x3FFFFFF = (target w).setWidth 32 := and_mask w 26

/-- The opcode needs no mask. -/
theorem shr_26_eq : w >>> 26 = (op w).setWidth 32 := by
  apply BitVec.eq_of_getLsbD_eq
  intro i hi
  simp only [op, BitVec.getLsbD_ushiftRight, BitVec.getLsbD_setWidth,
    BitVec.getLsbD_extractLsb']
  by_cases h6 : i < 6
  · simp [hi, h6]
  · simp [h6, BitVec.getLsbD_of_ge w (26 + i) (by omega)]

end Fields

/-! ## Constants -/

theorem extend_imm16 (x : BitVec 16) : extend 15 16 (x.setWidth 32) = x.signExtend 32 :=
  extend_eq (k := 15) (by decide) x

/-- The offset of a branch is the extended immediate, shifted. -/
theorem branchOffset_eq (x : BitVec 16) :
    branchOffset (x.setWidth 32) = x.signExtend 32 <<< 2 := by
  have hcat : x.setWidth 32 <<< 2 = (x ++ 0#2).setWidth 32 := setWidth_shl x 2
  have hbit : (x.setWidth 32 &&& 0x8000) >>> 15 ≠ 0 ↔
      ((x ++ 0#2).setWidth 32 &&& 1#32 <<< 17) >>> 17 ≠ 0 := by
    rw [bit_test (by decide), show (0x8000 : BitVec 32) = 1#32 <<< 15 from rfl,
      bit_test (by decide), ← hcat]
    simp
  have hext : branchOffset (x.setWidth 32) = extend 17 14 ((x ++ 0#2).setWidth 32) := by
    unfold branchOffset extend
    simp only [hbit, hcat]
  rw [hext]
  refine (extend_eq (k := 17) (by decide) (x ++ 0#2)).trans ?_
  apply BitVec.eq_of_getLsbD_eq
  intro i hi
  have hmsb : (x ++ 0#2).msb = x.msb := by
    rw [BitVec.msb_eq_getLsbD_last, BitVec.msb_eq_getLsbD_last, BitVec.getLsbD_append]
    rfl
  simp only [BitVec.getLsbD_signExtend, BitVec.getLsbD_shiftLeft, BitVec.getLsbD_append, hmsb]
  by_cases h2 : i < 2
  · simp [h2, hi, show i < 18 by omega]
  · by_cases h18 : i < 18
    · simp [h2, hi, h18, show i - 2 < 16 by omega, show i - 2 < 32 by omega]
    · simp [h2, hi, h18, show ¬ i - 2 < 16 by omega, show i - 2 < 32 by omega]

/-! ## One cycle -/

/-- The memory after an instruction. -/
def Sim.stored (s : Sim) (x : Instr) : Memory :=
  match x.stored s.current.regs with
  | some (address, value) => memWrite32 memRegions s.mem address value
  | none => s.mem

/-- What an instruction makes of a simulator whose `NEXT_STATE` is `CURRENT_STATE`. -/
def Sim.follow (s : Sim) (x : Instr) : Sim :=
  let cpu : CpuState :=
    { s.current with
      pc := x.nextPc s.current.pc s.current.regs
      regs := x.nextRegs s.memRead s.current.pc s.current.regs }
  { s with current := cpu, next := cpu, mem := s.stored x
           instrOpcode := s.memRead s.current.pc }

section Cycle

variable {s : Sim}

theorem reg_field (c : CpuState) (r : BitVec 5) : c.reg (r.setWidth 32) = c.regs r := by
  unfold CpuState.reg
  rw [setWidth_setWidth_self r (by decide)]

theorem setReg_field (c : CpuState) (r : BitVec 5) (v : BitVec 32) :
    c.setReg (r.setWidth 32) v = { c with regs := Function.update c.regs r v } := by
  unfold CpuState.setReg
  rw [setWidth_setWidth_self r (by decide)]

theorem setReg_31 (c : CpuState) (v : BitVec 32) :
    c.setReg 31 v = { c with regs := Function.update c.regs 31 v } := rfl

theorem field_eq_zero (r : BitVec 5) : r.setWidth 32 = (0 : BitVec 32) ↔ r = 0#5 :=
  setWidth_eq_iff (by decide) r 0

/-- Fetching on. -/
theorem assign_setPc (hs : s.next = s.current) (pc : BitVec 32) :
    s.assign (·.setPc pc) = { s with next := { s.current with pc := pc } } := by
  simp only [Sim.assign, CpuState.setPc, hs]

/-- Writing a register and fetching on; the code skips the write to register 0. -/
theorem assign_write (hs : s.next = s.current) (rd : BitVec 5) (v pc : BitVec 32) :
    (if rd.setWidth 32 = (0 : BitVec 32) then s.assign (·.setPc pc)
      else s.assign fun n => (n.setReg (rd.setWidth 32) v).setPc pc) =
      { s with next :=
        { s.current with pc := pc, regs := writeReg s.current.regs rd v } } := by
  simp only [setReg_field, Sim.assign, CpuState.setPc, hs]
  unfold writeReg
  by_cases hrd : rd = 0
  · rw [if_pos ((field_eq_zero rd).mpr hrd), if_pos hrd]
  · rw [if_neg (mt (field_eq_zero rd).mp hrd), if_neg hrd]

theorem executeR_next (hs : s.next = s.current) {f : RFun} {fn : BitVec 6}
    (hf : rFun fn = some f) (rs rt rd : BitVec 5) (shamt : BitVec 32) :
    executeR s (rs.setWidth 32) (rt.setWidth 32) (rd.setWidth 32) shamt (fn.setWidth 32) =
      { s with next :=
        { s.current with
          pc := s.current.pc + 4
          regs := writeReg s.current.regs rd
            (f.eval (s.current.regs rs) (s.current.regs rt)) } } := by
  obtain rfl := eq_code_of_rFun hf
  rw [← reg_field s.current rs, ← reg_field s.current rt, ← assign_write hs]
  unfold executeR
  by_cases hrd : rd.setWidth 32 = (0 : BitVec 32)
  · have hcode : f.code.setWidth 32 ≠ (0x0c : BitVec 32) := by cases f <;> decide
    rw [if_pos ⟨hrd, hcode⟩, if_pos hrd]
  · rw [if_neg fun h => hrd h.1, if_neg hrd]
    simp only [ofBool_eq]
    cases f <;> rfl

theorem executeR_sh_next (hs : s.next = s.current) {f : ShFun} {fn : BitVec 6}
    (hf : shFun fn = some f) (rs : BitVec 32) (rt rd shamt : BitVec 5) :
    executeR s rs (rt.setWidth 32) (rd.setWidth 32) (shamt.setWidth 32)
        (fn.setWidth 32) =
      { s with next :=
        { s.current with
          pc := s.current.pc + 4
          regs := writeReg s.current.regs rd (f.eval (s.current.regs rt) shamt) } } := by
  obtain rfl := eq_code_of_shFun hf
  have hn : (shamt.setWidth 32).toNat = shamt.toNat := BitVec.toNat_setWidth_of_le (by decide)
  rw [← reg_field s.current rt, ← assign_write hs]
  unfold executeR
  by_cases hrd : rd.setWidth 32 = (0 : BitVec 32)
  · have hcode : f.code.setWidth 32 ≠ (0x0c : BitVec 32) := by cases f <;> decide
    rw [if_pos ⟨hrd, hcode⟩, if_pos hrd]
  · rw [if_neg fun h => hrd h.1, if_neg hrd]
    cases f with
    | sll =>
        rw [ShFun.eval, ← hn]
        rfl
    | srl =>
        rw [ShFun.eval, ← hn]
        rfl

theorem executeI_alu_next (hs : s.next = s.current) {f : IFun} {o : BitVec 6}
    (hf : iFun o = some f) (rs rt : BitVec 5) (imm : BitVec 16) :
    executeI s (o.setWidth 32) (rs.setWidth 32) (rt.setWidth 32) (imm.setWidth 32) =
      { s with next :=
        { s.current with
          pc := s.current.pc + 4
          regs := writeReg s.current.regs rt
            (f.rFun.eval (s.current.regs rs) (f.extImm imm)) } } := by
  obtain rfl := eq_code_of_iFun hf
  rw [← reg_field s.current rs, ← assign_write hs]
  unfold executeI
  simp only [extend_imm16, ofBool_eq]
  cases f <;> rfl

theorem executeI_lw_next (hs : s.next = s.current) (rs rt : BitVec 5)
    (imm : BitVec 16) :
    executeI s ((0x23#6).setWidth 32) (rs.setWidth 32) (rt.setWidth 32)
        (imm.setWidth 32) =
      { s with next :=
        { s.current with
          pc := s.current.pc + 4
          regs := writeReg s.current.regs rt
            (s.memRead (wordAddr s.current.regs rs imm)) } } := by
  rw [wordAddr, ← reg_field s.current rs, ← assign_write hs, ← extend_imm16]
  rfl

theorem executeI_sw_next (hs : s.next = s.current) (rs rt : BitVec 5)
    (imm : BitVec 16) :
    executeI s ((0x2b#6).setWidth 32) (rs.setWidth 32) (rt.setWidth 32)
        (imm.setWidth 32) =
      { s with
        mem := memWrite32 memRegions s.mem (wordAddr s.current.regs rs imm)
          (s.current.regs rt)
        next := { s.current with pc := s.current.pc + 4 } } := by
  have hstore : executeI s ((0x2b#6).setWidth 32) (rs.setWidth 32) (rt.setWidth 32)
      (imm.setWidth 32) =
        (s.memWrite (s.current.reg (rs.setWidth 32) + extend 15 16 (imm.setWidth 32) &&&
          0xFFFFFFFC) (s.next.reg (rt.setWidth 32))).assign
            (·.setPc (s.current.pc + 4)) := rfl
  rw [hstore, extend_imm16, reg_field, reg_field, hs]
  simp only [Sim.assign, Sim.memWrite, CpuState.setPc, hs]
  rfl

theorem executeI_b_next (hs : s.next = s.current) {f : BrnFun} {o : BitVec 6}
    (hf : brnFun o = some f) (rs rt : BitVec 5) (imm : BitVec 16) :
    executeI s (o.setWidth 32) (rs.setWidth 32) (rt.setWidth 32) (imm.setWidth 32) =
      { s with next :=
        { s.current with
          pc := if f.eval (s.current.regs rs) (s.current.regs rt) then
            branchTarget s.current.pc imm else s.current.pc + 4 } } := by
  obtain rfl := eq_code_of_brnFun hf
  rw [← reg_field s.current rs, ← reg_field s.current rt, ← assign_setPc hs]
  unfold executeI
  simp only [branchOffset_eq]
  cases f <;> rfl

/-- The registers after a branch that may link. -/
theorem nextRegs_bz (load : BitVec 32 → BitVec 32) (pc : BitVec 32)
    (regs : BitVec 5 → BitVec 32) (f : ZFun) (rs : BitVec 5) (imm : BitVec 16) :
    (Instr.bz f rs imm).nextRegs load pc regs =
      if f.links then Function.update regs 31 (pc + 4) else regs := by
  cases f <;> rfl

theorem executeI_bz_next (hs : s.next = s.current) {f : ZFun} {o : BitVec 6}
    {rt : BitVec 5} (hf : zFun o rt = some f) (rs : BitVec 5) (imm : BitVec 16) :
    executeI s (o.setWidth 32) (rs.setWidth 32) (rt.setWidth 32) (imm.setWidth 32) =
      { s with next :=
        { s.current with
          pc := if f.eval (s.current.regs rs) then
            branchTarget s.current.pc imm else s.current.pc + 4
          regs := if f.links then
            Function.update s.current.regs 31 (s.current.pc + 4)
            else s.current.regs } } := by
  obtain ⟨rfl, hrt⟩ := eq_code_of_zFun hf
  rw [← reg_field s.current rs]
  unfold executeI
  simp only [branchOffset_eq]
  cases f with
  | blez | bgtz => exact assign_setPc hs _
  | bltz | bgez =>
      obtain rfl := hrt _ rfl
      exact assign_setPc hs _
  | bltzal | bgezal =>
      obtain rfl := hrt _ rfl
      simp only [Sim.assign, CpuState.setPc, hs]
      rfl

theorem executeJ_j_next (hs : s.next = s.current) (t : BitVec 26) :
    executeJ s ((0x2#6).setWidth 32) (t.setWidth 32) =
      { s with next := { s.current with pc := jumpTarget s.current.pc t } } := by
  simp [executeJ, J, Sim.assign, CpuState.setPc, hs, jumpTarget]

theorem executeJ_jal_next (hs : s.next = s.current) (t : BitVec 26) :
    executeJ s ((0x3#6).setWidth 32) (t.setWidth 32) =
      { s with next :=
        { s.current with
          pc := jumpTarget s.current.pc t
          regs := Function.update s.current.regs 31 (s.current.pc + 4) } } := by
  simp only [executeJ, Sim.assign, hs]
  rfl

/-- The format of a word is that of its opcode. -/
theorem decodeInstrType_eq (w : BitVec 32) :
    decodeInstrType w =
      if op w = 0 then .r else if op w = 2 ∨ op w = 3 then .j else .i := by
  unfold decodeInstrType
  have h : ∀ c : BitVec 6, w >>> 26 = c.setWidth 32 ↔ op w = c := fun c => by
    rw [shr_26_eq, setWidth_eq_iff (by decide)]
  have h0 : w >>> 26 = 0 ↔ op w = 0 := h 0
  have h2 : w >>> 26 = 2 ↔ op w = 2 := h 2
  have h3 : w >>> 26 = 3 ↔ op w = 3 := h 3
  simp only [h0, h2, h3]

/-- The dispatch of `process_instruction`. -/
def dispatch (t : InstrType) (s : Sim) (w : BitVec 32) : Sim :=
  match t with
  | .r => decodeR s w
  | .j => decodeJ s w
  | .i => decodeI s w

theorem cycle_of_dispatch {w : BitVec 32} (hw : s.memRead s.current.pc = w)
    {t : InstrType} (ht : decodeInstrType w = t) {cpu : CpuState} {mem : Memory}
    (h : dispatch t { s with instrOpcode := w } w =
      { s with instrOpcode := w, next := cpu, mem := mem }) :
    cycle s = { s with current := cpu, next := cpu, mem := mem, instrOpcode := w } := by
  have hp : processInstruction s = { s with instrOpcode := w, next := cpu, mem := mem } := by
    unfold processInstruction
    simp only [hw, ht]
    cases t <;> exact h
  unfold cycle
  rw [hp]

/-- On a word that encodes an instruction, `cycle` follows the instruction. -/
theorem cycle_eq (hs : s.next = s.current) {x : Instr}
    (hx : decodeInstr (s.memRead s.current.pc) = some x) : cycle s = s.follow x := by
  unfold Sim.follow
  generalize hw : s.memRead s.current.pc = w at hx ⊢
  have hs' : ({ s with instrOpcode := w } : Sim).next = s.current := hs
  have htype := decodeInstrType_eq w
  cases encodes_of_decodeInstr hx with
  | r hop hf =>
      refine cycle_of_dispatch hw (t := .r) (by rw [htype, hop]; rfl) ?_
      show decodeR _ w = _
      simp only [decodeR, field_rs, field_rt, field_rd, field_funct]
      exact executeR_next hs' hf _ _ _ _
  | sh hop hf =>
      refine cycle_of_dispatch hw (t := .r) (by rw [htype, hop]; rfl) ?_
      show decodeR _ w = _
      simp only [decodeR, field_rt, field_rd, field_shamt, field_funct]
      exact executeR_sh_next hs' hf _ _ _ _
  | @i f hf =>
      have hi : decodeInstrType w = .i := by
        rw [htype, eq_code_of_iFun hf]
        cases f <;> rfl
      refine cycle_of_dispatch hw hi ?_
      show decodeI _ w = _
      simp only [decodeI, field_op, field_rs, field_rt, field_imm16]
      exact executeI_alu_next hs' hf _ _ _
  | lw hop =>
      refine cycle_of_dispatch hw (t := .i) (by rw [htype, hop]; rfl) ?_
      show decodeI _ w = _
      simp only [decodeI, field_op, field_rs, field_rt, field_imm16, hop]
      exact executeI_lw_next hs' _ _ _
  | sw hop =>
      refine cycle_of_dispatch hw (t := .i) (by rw [htype, hop]; rfl) ?_
      show decodeI _ w = _
      simp only [decodeI, field_op, field_rs, field_rt, field_imm16, hop]
      exact executeI_sw_next hs' _ _ _
  | @b f hf =>
      have hi : decodeInstrType w = .i := by
        rw [htype, eq_code_of_brnFun hf]
        cases f <;> rfl
      refine cycle_of_dispatch hw hi ?_
      show decodeI _ w = _
      simp only [decodeI, field_op, field_rs, field_rt, field_imm16]
      exact executeI_b_next hs' hf _ _ _
  | @bz f hf =>
      have hi : decodeInstrType w = .i := by
        rw [htype, (eq_code_of_zFun hf).1]
        cases f <;> rfl
      refine cycle_of_dispatch hw hi ?_
      show decodeI _ w = _
      simp only [decodeI, field_op, field_rs, field_rt, field_imm16, nextRegs_bz]
      exact executeI_bz_next hs' hf _ _
  | j hop =>
      refine cycle_of_dispatch hw (t := .j) (by rw [htype, hop]; rfl) ?_
      show decodeJ _ w = _
      simp only [decodeJ, field_op, field_target, hop]
      exact executeJ_j_next hs' _
  | jal hop =>
      refine cycle_of_dispatch hw (t := .j) (by rw [htype, hop]; rfl) ?_
      show decodeJ _ w = _
      simp only [decodeJ, field_op, field_target, hop]
      exact executeJ_jal_next hs' _

end Cycle

end SimpleCpu.Mips.Iss
