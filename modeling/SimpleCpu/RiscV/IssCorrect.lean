import SimpleCpu.Bits.Fields
import SimpleCpu.RiscV.Isa
import SimpleCpu.RiscV.Iss

/-!
# The simulator follows the instructions

`cycle_eq`: on a word that encodes an instruction, one `cycle` of the simulator does
what the instruction says, and nothing else.
-/

namespace SimpleCpu.RiscV.Iss

open SimpleCpu.Bits SimpleCpu.Iss SimpleCpu.RiscV.Isa

/-! ## Fields -/

section Fields

variable (w : BitVec 32)

theorem field_opcode : w &&& 0x7F = (opcode w).setWidth 32 := and_mask w 7

theorem field_rd : w >>> 7 &&& 0x1F = (Isa.rd w).setWidth 32 := shr_and_mask w 7 5

theorem field_rs1 : w >>> 15 &&& 0x1F = (Isa.rs1 w).setWidth 32 := shr_and_mask w 15 5

theorem field_rs2 : w >>> 20 &&& 0x1F = (Isa.rs2 w).setWidth 32 := shr_and_mask w 20 5

theorem field_funct3 : w >>> 12 &&& 0x07 = (Isa.funct3 w).setWidth 32 :=
  shr_and_mask w 12 3

theorem field_funct7 : w >>> 25 &&& 0x7F = (w.extractLsb' 25 7).setWidth 32 :=
  shr_and_mask w 25 7

theorem field_immI : w >>> 20 &&& 0xFFF = (immI w).setWidth 32 := shr_and_mask w 20 12

theorem field_immU : w >>> 12 &&& 0xFFFFF = (immU w).setWidth 32 :=
  shr_and_mask w 12 20

/-- The immediate `decode_s` puts together. -/
theorem field_immS :
    ((w >>> 25 &&& 0x7F) <<< 5) ||| (w >>> 7 &&& 0x1F) =
      (w.extractLsb' 25 7 ++ w.extractLsb' 7 5).setWidth 32 := by
  rw [field_funct7, field_rd]
  exact shl_or_setWidth (w.extractLsb' 25 7) (Isa.rd w)

theorem field_bit (k : Nat) : w >>> k &&& 0x01 = (w.extractLsb' k 1).setWidth 32 :=
  shr_and_mask w k 1

/-- The function code of `execute_r`. -/
theorem field_functR :
    (((w >>> 25 &&& 0x7F) >>> 5 &&& 0x1) <<< 3) ||| (w >>> 12 &&& 0x07) =
      (functR w).setWidth 32 := by
  have hbit : (w >>> 25 &&& 0x7F) >>> 5 &&& 0x1 = (w.extractLsb' 30 1).setWidth 32 := by
    rw [← field_bit, BitVec.ushiftRight_and_distrib, ← BitVec.shiftRight_add, BitVec.and_assoc]
    rfl
  rw [hbit, field_funct3]
  exact shl_or_setWidth (w.extractLsb' 30 1) (Isa.funct3 w)

/-- The offset `decode_b` puts together. -/
theorem field_immB :
    ((w >>> 31 &&& 0x01) <<< 12) ||| ((w >>> 7 &&& 0x01) <<< 11) |||
      ((w >>> 25 &&& 0x3F) <<< 5) ||| ((w >>> 8 &&& 0x0F) <<< 1) =
      (immB w ++ 0#1).setWidth 32 := by
  have hmid : w >>> 25 &&& 0x3F = (w.extractLsb' 25 6).setWidth 32 := shr_and_mask w 25 6
  have hlow : w >>> 8 &&& 0x0F = (w.extractLsb' 8 4).setWidth 32 := shr_and_mask w 8 4
  rw [field_bit, field_bit, hmid, hlow, shl_or_shl _ (w.extractLsb' 7 1) 11,
    shl_or_shl _ (w.extractLsb' 25 6) 5, shl_or_shl _ (w.extractLsb' 8 4) 1, setWidth_shl]
  rfl

/-- The offset `decode_j` puts together. -/
theorem field_immJ :
    ((w >>> 31 &&& 0x01) <<< 20) ||| ((w >>> 12 &&& 0xFF) <<< 12) |||
      ((w >>> 20 &&& 0x01) <<< 11) ||| ((w >>> 21 &&& 0x3FF) <<< 1) =
      (immJ w ++ 0#1).setWidth 32 := by
  have hmid : w >>> 12 &&& 0xFF = (w.extractLsb' 12 8).setWidth 32 := shr_and_mask w 12 8
  have hlow : w >>> 21 &&& 0x3FF = (w.extractLsb' 21 10).setWidth 32 := shr_and_mask w 21 10
  rw [field_bit, field_bit, hmid, hlow, shl_or_shl _ (w.extractLsb' 12 8) 12,
    shl_or_shl _ (w.extractLsb' 20 1) 11, shl_or_shl _ (w.extractLsb' 21 10) 1, setWidth_shl]
  rfl

end Fields

/-! ## Constants -/

theorem extend_immI (x : BitVec 12) : extend 11 20 (x.setWidth 32) = x.signExtend 32 :=
  extend_eq (k := 11) (by decide) x

theorem extend_immB (x : BitVec 13) : extend 12 19 (x.setWidth 32) = x.signExtend 32 :=
  extend_eq (k := 12) (by decide) x

theorem extend_immJ (x : BitVec 21) : extend 20 11 (x.setWidth 32) = x.signExtend 32 :=
  extend_eq (k := 20) (by decide) x

/-- The test of bit 15 never finds the sign of a 12-bit offset. -/
theorem extend_immS (x : BitVec 12) : extend 15 16 (x.setWidth 32) = x.setWidth 32 := by
  have hbit : ¬ (x.setWidth 32).getLsbD 15 = true := by simp
  unfold extend
  exact if_neg fun h => hbit ((bit_test (by decide) _).mp h)

/-- The mask from the table makes the logical shift arithmetic. -/
theorem sra_eq (x y : BitVec 32) :
    (if x >>> 31 = 1 then (x >>> (y &&& 0x1F)) ||| shiftConst (y &&& 0x1F)
      else x >>> (y &&& 0x1F)) = x.sshiftRight (y.toNat % 32) := by
  have hn : (y &&& 0x1F).toNat = y.toNat % 32 := toNat_and_31 y
  have hlt : y.toNat % 32 < 32 := Nat.mod_lt _ (by decide)
  have hval : y &&& 0x1F = BitVec.ofNat 32 (y.toNat % 32) := by
    apply BitVec.eq_of_toNat_eq
    rw [hn, BitVec.toNat_ofNat]
    omega
  have hsign : x >>> 31 = 1 ↔ x.msb = true := by
    rw [BitVec.msb_eq_decide, decide_eq_true_iff]
    have hx := x.isLt
    constructor
    · intro h
      have := congrArg BitVec.toNat h
      simp [Nat.shiftRight_eq_div_pow] at this
      omega
    · intro h
      apply BitVec.eq_of_toNat_eq
      simp [Nat.shiftRight_eq_div_pow]
      omega
  rw [hval]
  generalize y.toNat % 32 = n at hlt
  have hshift : x >>> BitVec.ofNat 32 n = x >>> n := by
    rw [BitVec.ushiftRight_eq', BitVec.toNat_ofNat, Nat.mod_eq_of_lt (by omega)]
  rw [hshift, shiftConst_eq hlt]
  apply BitVec.eq_of_getLsbD_eq
  intro i hi
  rw [BitVec.getLsbD_sshiftRight]
  split
  next h1 =>
    rw [hsign] at h1
    rw [BitVec.getLsbD_or, BitVec.getLsbD_ushiftRight, BitVec.getLsbD_shiftLeft,
      BitVec.getLsbD_allOnes, h1]
    by_cases hni : n + i < 32
    · simp [hi, hni, show i < 32 - n by omega]
    · simp [hi, hni, show ¬ i < 32 - n by omega, show i - (32 - n) < 32 by omega]
  next h0 =>
    have h0' : x.msb = false := by rw [hsign] at h0; simpa using h0
    rw [BitVec.getLsbD_ushiftRight, h0']
    by_cases hni : n + i < 32
    · simp [hi, hni]
    · simp [hni, BitVec.getLsbD_of_ge x (n + i) (by omega)]

/-! ## One cycle -/

/-- What an instruction makes of a simulator whose `NEXT_STATE` is `CURRENT_STATE`. -/
def Sim.follow (s : Sim) (x : Instr) : Sim :=
  let cpu : CpuState :=
    { pc := x.nextPc s.current.pc s.current.regs
      regs := x.nextRegs s.memRead s.current.pc s.current.regs }
  { s with current := cpu, next := cpu, instrOpcode := s.memRead s.current.pc }

section Cycle

variable {s : Sim}

theorem reg_field (c : CpuState) (r : BitVec 5) : c.reg (r.setWidth 32) = c.regs r := by
  unfold CpuState.reg
  rw [setWidth_setWidth_self r (by decide)]

theorem setReg_field (c : CpuState) (r : BitVec 5) (v : BitVec 32) :
    c.setReg (r.setWidth 32) v = { c with regs := Function.update c.regs r v } := by
  unfold CpuState.setReg
  rw [setWidth_setWidth_self r (by decide)]

theorem field_eq_zero (r : BitVec 5) : r.setWidth 32 = (0 : BitVec 32) ↔ r = 0#5 :=
  setWidth_eq_iff (by decide) r 0

/-- Writing a register and fetching on; the code skips the write to register 0. -/
theorem assign_write (hs : s.next = s.current) (rd : BitVec 5) (v pc : BitVec 32) :
    (if rd.setWidth 32 = (0 : BitVec 32) then s.assign (·.setPc pc)
      else s.assign fun n => (n.setReg (rd.setWidth 32) v).setPc pc) =
      { s with next := { pc := pc, regs := writeReg s.current.regs rd v } } := by
  simp only [setReg_field, Sim.assign, CpuState.setPc, hs]
  unfold writeReg
  by_cases hrd : rd = 0
  · rw [if_pos ((field_eq_zero rd).mpr hrd), if_pos hrd]
  · rw [if_neg (mt (field_eq_zero rd).mp hrd), if_neg hrd]

theorem executeR_next (hs : s.next = s.current) {f : AluFun} {fn : BitVec 4}
    (hf : aluFunR fn = some f) (rd rs1 rs2 : BitVec 5) (funct7 funct3 : BitVec 32)
    (hfn : ((funct7 >>> 5 &&& 0x1) <<< 3) ||| funct3 = fn.setWidth 32) :
    executeR s (rs1.setWidth 32) (rs2.setWidth 32) (rd.setWidth 32) funct7 funct3 =
      { s with next :=
        { pc := s.current.pc + 4
          regs := writeReg s.current.regs rd
            (f.eval (s.current.regs rs1) (s.current.regs rs2)) } } := by
  obtain rfl := eq_code_of_aluFunR hf
  rw [← reg_field s.current rs1, ← reg_field s.current rs2, ← assign_write hs]
  unfold executeR
  simp only [hfn, sra_eq, ofBool_eq]
  by_cases hrd : rd.setWidth 32 = (0 : BitVec 32)
  · rw [if_pos hrd, if_pos hrd]
  · rw [if_neg hrd, if_neg hrd]
    cases f with
    | sll =>
        rw [AluFun.eval, ← toNat_and_31]
        rfl
    | srl =>
        rw [AluFun.eval, ← toNat_and_31]
        rfl
    | add | sub | and | or | xor | sra | slt | sltu => rfl

theorem executeI_alu_next (hs : s.next = s.current) {f : AluFun} {fn : BitVec 3}
    (hf : aluFunI fn = some f) (rd rs1 : BitVec 5) (imm : BitVec 12) :
    executeI s (fn.setWidth 32) 0x13 (rs1.setWidth 32) (rd.setWidth 32)
        (imm.setWidth 32) =
      { s with next :=
        { pc := s.current.pc + 4
          regs := writeReg s.current.regs rd
            (f.eval (s.current.regs rs1) (imm.signExtend 32)) } } := by
  rw [← reg_field s.current rs1, ← assign_write hs]
  unfold executeI
  simp only [extend_immI, ofBool_eq]
  rcases aluFunI_cases hf with ⟨rfl, rfl⟩ | ⟨rfl, rfl⟩ | ⟨rfl, rfl⟩ | ⟨rfl, rfl⟩ | ⟨rfl, rfl⟩ <;>
    rfl

theorem executeI_lw_next (hs : s.next = s.current) (rd rs1 : BitVec 5)
    (imm : BitVec 12) :
    executeI s ((2#3).setWidth 32) 0x03 (rs1.setWidth 32) (rd.setWidth 32)
        (imm.setWidth 32) =
      { s with next :=
        { pc := s.current.pc + 4
          regs := writeReg s.current.regs rd
            (s.memRead (s.current.regs rs1 + imm.signExtend 32)) } } := by
  rw [← reg_field s.current rs1, ← assign_write hs, ← extend_immI]
  rfl

/-- The simulator's `JALR`, code 7 of opcode 0x03. -/
theorem executeI_jalr (s : Sim) (rs1 rd imm : BitVec 32) :
    (executeI s 7 0x03 rs1 rd imm).next.pc = s.current.reg rs1 + extend 11 20 imm ∧
      (executeI s 7 0x03 rs1 rd imm).runBit = s.runBit := by
  have hjalr : executeI s 7 0x03 rs1 rd imm =
      if rd ≠ 0 then
        (s.assign (·.setPc (s.current.reg rs1 + extend 11 20 imm))).assign
          (·.setReg rd (s.current.pc + 4))
      else s.assign (·.setPc (s.current.reg rs1 + extend 11 20 imm)) := rfl
  rw [hjalr]
  split
  next => exact ⟨rfl, rfl⟩
  next => exact ⟨rfl, rfl⟩

/-- A jump, with or without a register for the link. -/
theorem executeJ_jumps (s : Sim) (rd imm : BitVec 32) :
    (executeJ s rd imm).next.pc = s.current.pc + extend 20 11 imm ∧
      (executeJ s rd imm).runBit = s.runBit := by
  unfold executeJ
  dsimp only
  split
  next => exact ⟨rfl, rfl⟩
  next => exact ⟨rfl, rfl⟩

/-- The condition of `execute_b` chooses the next program counter. -/
theorem executeB_eq (s : Sim) {f : BrnFun} {fn : BitVec 3} (hf : brnFun fn = some f)
    (rs1 rs2 imm : BitVec 32) :
    executeB s (fn.setWidth 32) rs1 rs2 imm =
      s.assign (·.setPc (if f.eval (s.current.reg rs1) (s.current.reg rs2) then
        s.current.pc + extend 12 19 imm else s.current.pc + 4)) := by
  rcases brnFun_cases hf with
    ⟨rfl, rfl⟩ | ⟨rfl, rfl⟩ | ⟨rfl, rfl⟩ | ⟨rfl, rfl⟩ | ⟨rfl, rfl⟩ | ⟨rfl, rfl⟩ <;> rfl

theorem executeB_next (hs : s.next = s.current) {f : BrnFun} {fn : BitVec 3}
    (hf : brnFun fn = some f) (rs1 rs2 : BitVec 5) (imm : BitVec 13) :
    executeB s (fn.setWidth 32) (rs1.setWidth 32) (rs2.setWidth 32) (imm.setWidth 32) =
      { s with next :=
        { s.current with
          pc := if f.eval (s.current.regs rs1) (s.current.regs rs2) then
            s.current.pc + imm.signExtend 32 else s.current.pc + 4 } } := by
  rw [executeB_eq s hf, reg_field, reg_field, extend_immB]
  simp only [Sim.assign, CpuState.setPc, hs]

/-- A 20-bit immediate in the upper bits. -/
theorem shl_12_eq (imm : BitVec 20) : imm.setWidth 32 <<< 12 = imm ++ 0#12 := by
  rw [setWidth_shl, BitVec.setWidth_eq]

/-- The register write of `execute_u`: register 0 is written with the zero it holds. -/
theorem assign_setReg_eq (hs : s.next = s.current) (h0 : s.current.regs 0 = 0)
    (rd : BitVec 5) (v pc : BitVec 32) :
    s.assign (fun n => (n.setReg (rd.setWidth 32)
        (if rd.setWidth 32 ≠ 0 then v else 0)).setPc pc) =
      { s with next := { pc := pc, regs := writeReg s.current.regs rd v } } := by
  have h0' : s.current.regs 0#5 = 0#32 := h0
  simp only [setReg_field, field_eq_zero, ne_eq, Sim.assign, CpuState.setPc, hs]
  by_cases hrd : rd = 0#5
  · simp [writeReg, hrd, h0']
  · simp [writeReg, hrd]

theorem executeU_lui_next (hs : s.next = s.current) (h0 : s.current.regs 0 = 0)
    (rd : BitVec 5) (imm : BitVec 20) :
    executeU s 0x37 (rd.setWidth 32) (imm.setWidth 32) =
      { s with next :=
        { pc := s.current.pc + 4
          regs := writeReg s.current.regs rd (imm ++ 0#12) } } := by
  rw [← assign_setReg_eq hs h0 rd (imm ++ 0#12) (s.current.pc + 4), ← shl_12_eq]
  rfl

theorem executeU_auipc_next (hs : s.next = s.current) (h0 : s.current.regs 0 = 0)
    (rd : BitVec 5) (imm : BitVec 20) :
    executeU s 0x27 (rd.setWidth 32) (imm.setWidth 32) =
      { s with next :=
        { pc := s.current.pc + 4
          regs := writeReg s.current.regs rd (s.current.pc + (imm ++ 0#12)) } } := by
  rw [← assign_setReg_eq hs h0 rd (s.current.pc + (imm ++ 0#12)) (s.current.pc + 4),
    ← shl_12_eq]
  rfl

theorem executeJ_next (hs : s.next = s.current) (rd : BitVec 5) (imm : BitVec 21) :
    executeJ s (rd.setWidth 32) (imm.setWidth 32) =
      { s with next :=
        { pc := s.current.pc + imm.signExtend 32
          regs := writeReg s.current.regs rd (s.current.pc + 4) } } := by
  unfold executeJ
  simp only [extend_immJ, setReg_field, field_eq_zero, ne_eq, Sim.assign, CpuState.setPc,
    hs]
  by_cases hrd : rd = 0#5 <;> simp [writeReg, hrd]

/-- The opcode of a word that is nothing else. -/
theorem opcode_setWidth (c : BitVec 7) : opcode (c.setWidth 32) = c := by
  apply BitVec.eq_of_getLsbD_eq
  intro i hi
  simp [opcode, hi, show i < 32 by omega]

/-- The format of a word is that of its opcode. -/
theorem decodeInstrType_eq {w : BitVec 32} {c : BitVec 7} (hop : opcode w = c) :
    decodeInstrType w = decodeInstrType (c.setWidth 32) := by
  unfold decodeInstrType
  simp only [field_opcode, opcode_setWidth, hop]

/-- The dispatch of `process_instruction`. -/
def dispatch (t : InstrType) (s : Sim) (w : BitVec 32) : Sim :=
  match t with
  | .r => decodeR s w
  | .i => decodeI s w
  | .s => decodeS s w
  | .b => decodeB s w
  | .u => decodeU s w
  | .j => decodeJ s w

theorem cycle_of_dispatch {w : BitVec 32} (hw : s.memRead s.current.pc = w)
    {t : InstrType} (ht : decodeInstrType w = some t) {cpu : CpuState}
    (h : dispatch t { s with instrOpcode := w } w =
      { s with instrOpcode := w, next := cpu }) :
    cycle s = { s with current := cpu, next := cpu, instrOpcode := w } := by
  have hp : processInstruction s = { s with instrOpcode := w, next := cpu } := by
    unfold processInstruction
    simp only [hw, ht]
    cases t <;> exact h
  unfold cycle
  rw [hp]

/-- The state that a word of a class leads to. -/
theorem cycle_current {w : BitVec 32} (hw : s.memRead s.current.pc = w) {t : InstrType}
    (ht : decodeInstrType w = some t) :
    (cycle s).current = (dispatch t { s with instrOpcode := w } w).next := by
  unfold cycle processInstruction
  simp only [hw, ht]
  cases t <;> rfl

/-- On a word that encodes an instruction, `cycle` follows the instruction. -/
theorem cycle_eq (hs : s.next = s.current) (h0 : s.current.regs 0 = 0) {x : Instr}
    (hx : decodeInstr (s.memRead s.current.pc) = some x) : cycle s = s.follow x := by
  unfold Sim.follow
  generalize hw : s.memRead s.current.pc = w at hx ⊢
  have hs' : ({ s with instrOpcode := w } : Sim).next = s.current := hs
  cases encodes_of_decodeInstr hx with
  | r hop hf =>
      refine cycle_of_dispatch hw (t := .r) ((decodeInstrType_eq hop).trans rfl) ?_
      show decodeR _ w = _
      simp only [decodeR, field_rd, field_rs1, field_rs2]
      exact executeR_next hs' hf _ _ _ _ _ (field_functR w)
  | i hop hf =>
      refine cycle_of_dispatch hw (t := .i) ((decodeInstrType_eq hop).trans rfl) ?_
      show decodeI _ w = _
      simp only [decodeI, field_rd, field_rs1, field_funct3, field_immI, field_opcode, hop]
      exact executeI_alu_next hs' hf _ _ _
  | lw hop hf =>
      refine cycle_of_dispatch hw (t := .i) ((decodeInstrType_eq hop).trans rfl) ?_
      show decodeI _ w = _
      simp only [decodeI, field_rd, field_rs1, field_funct3, field_immI, field_opcode, hop,
        hf]
      exact executeI_lw_next hs' _ _ _
  | b hop hf =>
      refine cycle_of_dispatch hw (t := .b) ((decodeInstrType_eq hop).trans rfl) ?_
      show decodeB _ w = _
      simp only [decodeB, field_rs1, field_rs2, field_funct3, field_immB]
      exact executeB_next hs' hf _ _ _
  | lui hop =>
      refine cycle_of_dispatch hw (t := .u) ((decodeInstrType_eq hop).trans rfl) ?_
      show decodeU _ w = _
      simp only [decodeU, field_rd, field_immU, field_opcode, hop]
      exact executeU_lui_next hs' h0 _ _
  | auipc hop =>
      refine cycle_of_dispatch hw (t := .u) ((decodeInstrType_eq hop).trans rfl) ?_
      show decodeU _ w = _
      simp only [decodeU, field_rd, field_immU, field_opcode, hop]
      exact executeU_auipc_next hs' h0 _ _
  | jal hop =>
      refine cycle_of_dispatch hw (t := .j) ((decodeInstrType_eq hop).trans rfl) ?_
      show decodeJ _ w = _
      simp only [decodeJ, field_rd, field_immJ]
      exact executeJ_next hs' _ _

end Cycle

end SimpleCpu.RiscV.Iss
