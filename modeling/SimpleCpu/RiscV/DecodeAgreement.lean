import SimpleCpu.RiscV.Loads
import SimpleCpu.RiscV.Store

/-!
# Decoder and simulator read the same instruction

For every word, `decode` raises the class that `decode_instr_type` returns and no other,
the fields are the same, and the simulator computes with the immediate of the decoder
(`decode_agrees`).  A word that has no class in the one has none in the other.
-/

namespace SimpleCpu.RiscV

open SimpleCpu.Bits SimpleCpu.Iss SimpleCpu.Rtl SimpleCpu.RiscV.Isa SimpleCpu.RiscV.Iss

/-! ## What is compared -/

/-- The classes that the decoder raises. -/
def Decode.classes (d : Decode) : List InstrType :=
  (if d.isRType then [.r] else []) ++ (if d.isIType then [.i] else []) ++
    (if d.isSType then [.s] else []) ++ (if d.isBType then [.b] else []) ++
    (if d.isUType then [.u] else []) ++ (if d.isJType then [.j] else [])

/-- The argument `imm` that `decode_i`, `decode_s`, `decode_b`, `decode_u` and `decode_j`
pass on.  `decode_r` passes none. -/
def Iss.immArg (w : BitVec 32) : InstrType → BitVec 32
  | .r => 0
  | .i => w >>> 20 &&& 0xFFF
  | .s => ((w >>> 25 &&& 0x7F) <<< 5) ||| (w >>> 7 &&& 0x1F)
  | .b => ((w >>> 31 &&& 0x01) <<< 12) ||| ((w >>> 7 &&& 0x01) <<< 11) |||
      ((w >>> 25 &&& 0x3F) <<< 5) ||| ((w >>> 8 &&& 0x0F) <<< 1)
  | .u => w >>> 12 &&& 0xFFFFF
  | .j => ((w >>> 31 &&& 0x01) <<< 20) ||| ((w >>> 12 &&& 0xFF) <<< 12) |||
      ((w >>> 20 &&& 0x01) <<< 11) ||| ((w >>> 21 &&& 0x3FF) <<< 1)

/-- The execution of a class from the fields of the decoder. -/
def Iss.executeFields (t : InstrType) (s : Iss.Sim) (d : Decode) (imm : BitVec 32) : Iss.Sim :=
  let rs1 := d.rs1.setWidth 32
  let rs2 := d.rs2.setWidth 32
  let rd := d.rd.setWidth 32
  let funct3 := d.funct3.setWidth 32
  match t with
  | .r => executeR s rs1 rs2 rd (d.funct7.setWidth 32) funct3
  | .i => executeI s funct3 (d.op.setWidth 32) rs1 rd imm
  | .s => executeS s funct3 rs1 rs2 imm
  | .b => executeB s funct3 rs1 rs2 imm
  | .u => executeU s (d.op.setWidth 32) rd imm
  | .j => executeJ s rd imm

/-- The simulator is about to execute `w`. -/
structure Iss.Sim.Fetches (s : Iss.Sim) (w : Word) : Prop where
  word : s.memRead s.current.pc = w
  next : s.next = s.current

/-- Whenever the simulator executes `w`, with the fields of `d`, it computes with the immediate
`imm`: as an operand, in an address of memory, as the way to the next instruction, or as the
upper part of a value.  There is a field for each use. -/
structure Iss.ComputesWith (w : Word) (d : Decode) (imm : Word) : Prop where
  alu : d.op = I_TYPE_1 → ∀ f ∈ aluFunI d.funct3, ∀ s : Iss.Sim, s.Fetches w →
    (cycle s).current.regs =
      writeReg s.current.regs d.rd (f.eval (s.current.regs d.rs1) imm)
  load : d.op = I_TYPE_0 → ∀ op ∈ loadOp d.funct3, d.rd ≠ 0 → ∀ s : Iss.Sim, s.Fetches w →
    (cycle s).current.regs d.rd = op.narrow 20 (s.memRead (s.current.regs d.rs1 + imm))
  jalr : d.op = I_TYPE_0 → d.funct3 = 7 → ∀ s : Iss.Sim, s.Fetches w →
    (cycle s).current.pc = s.current.regs d.rs1 + imm
  branch : d.op = B_TYPE → ∀ f ∈ brnFun d.funct3, ∀ s : Iss.Sim, s.Fetches w →
    (cycle s).current.pc =
      if f.eval (s.current.regs d.rs1) (s.current.regs d.rs2) then s.current.pc + imm
      else s.current.pc + 4
  lui : d.op = RiscV.LUI → d.rd ≠ 0 → ∀ s : Iss.Sim, s.Fetches w →
    (cycle s).current.regs d.rd = imm
  auipc : d.op = RiscV.AUIPC → d.rd ≠ 0 → ∀ s : Iss.Sim, s.Fetches w →
    (cycle s).current.regs d.rd = s.current.pc + imm
  jal : d.op = J_TYPE → ∀ s : Iss.Sim, s.Fetches w →
    (cycle s).current.pc = s.current.pc + imm

/-- The decoder, as `d`, and the simulator agree on a word. -/
structure DecodeAgrees (w : Word) (d : Decode) : Prop where
  /-- One class, the same, or none. -/
  classes : d.classes = (decodeInstrType w).toList
  rd : w >>> 7 &&& 0x1F = d.rd.setWidth 32
  rs1 : w >>> 15 &&& 0x1F = d.rs1.setWidth 32
  rs2 : w >>> 20 &&& 0x1F = d.rs2.setWidth 32
  funct3 : w >>> 12 &&& 0x07 = d.funct3.setWidth 32
  funct7 : w >>> 25 &&& 0x7F = d.funct7.setWidth 32
  /-- The simulator executes with these fields. -/
  execute : ∀ t s, dispatch t s w = executeFields t s d (immArg w t)
  imm : ComputesWith w d d.signExtndImm

/-! ## Classes -/

/-- Both sides over the 128 opcodes. -/
theorem classes_opcode : ∀ c : BitVec 7,
    (decode (c.setWidth 32)).classes = (decodeInstrType (c.setWidth 32)).toList := by
  decide +kernel

/-- The flags of the decoder depend on the opcode only. -/
theorem classes_congr {w w' : Word} (h : opcode w = opcode w') :
    (decode w).classes = (decode w').classes := by
  unfold Decode.classes
  rw [decode_eq, decode_eq, h]

theorem classes_eq (w : Word) : (decode w).classes = (decodeInstrType w).toList := by
  rw [decodeInstrType_eq (w := w) rfl, classes_congr (opcode_setWidth (opcode w)).symm,
    classes_opcode]

/-! ## Fields -/

theorem dispatch_eq (w : Word) (t : InstrType) (s : Iss.Sim) :
    dispatch t s w = executeFields t s (decode w) (immArg w t) := by
  cases t with
  | r =>
      simp only [dispatch, decodeR, field_rs1, field_rs2, field_rd, field_funct3, field_funct7]
      rfl
  | i =>
      simp only [dispatch, decodeI, field_rs1, field_rd, field_funct3, field_opcode]
      rfl
  | s =>
      simp only [dispatch, decodeS, field_rs1, field_rs2, field_funct3]
      rfl
  | b =>
      simp only [dispatch, decodeB, field_rs1, field_rs2, field_funct3]
      rfl
  | u =>
      simp only [dispatch, decodeU, field_rd, field_opcode]
      rfl
  | j =>
      simp only [dispatch, decodeJ, field_rd]
      rfl

/-! ## Immediates -/

section Immediates

variable {w : Word}

theorem signExtndImm_i (hop : opcode w = I_TYPE_0 ∨ opcode w = I_TYPE_1) :
    (decode w).signExtndImm = (immI w).signExtend 32 := by
  rcases hop with hop | hop <;>
    simp [Decode.signExtndImm, Decode.instrImm12bit, signExtnd12bit, decode_eq, hop]

theorem signExtndImm_b (hop : opcode w = B_TYPE) :
    (decode w).signExtndImm = (immB w ++ 0#1).signExtend 32 := by
  simp [Decode.signExtndImm, Decode.instrImm12bit, signExtnd12bit, decode_eq, hop]

theorem signExtndImm_u (hop : opcode w = RiscV.AUIPC ∨ opcode w = RiscV.LUI) :
    (decode w).signExtndImm = immU w ++ 0#12 := by
  rcases hop with hop | hop <;>
    simp [Decode.signExtndImm, Decode.instrImm20bit, decode_eq, hop]

theorem signExtndImm_j (hop : opcode w = J_TYPE) :
    (decode w).signExtndImm = (immJ w ++ 0#1).signExtend 32 := by
  simp [Decode.signExtndImm, Decode.instrImm20bit, signExtnd20bit, decode_eq, hop]

end Immediates

section Computes

variable {w : Word} {s : Iss.Sim}

theorem cycle_i (hw : s.Fetches w) (hop : opcode w = I_TYPE_0 ∨ opcode w = I_TYPE_1) :
    (cycle s).current =
      (executeI { s with instrOpcode := w } ((Isa.funct3 w).setWidth 32)
        ((opcode w).setWidth 32) ((Isa.rs1 w).setWidth 32) ((Isa.rd w).setWidth 32)
        ((immI w).setWidth 32)).next := by
  have ht : decodeInstrType w = some .i := by
    rcases hop with hop | hop <;> exact (decodeInstrType_eq hop).trans rfl
  rw [cycle_current hw.word ht]
  show (decodeI _ w).next = _
  simp only [decodeI, field_rd, field_rs1, field_funct3, field_immI, field_opcode]

theorem cycle_u (hw : s.Fetches w) (hop : opcode w = RiscV.AUIPC ∨ opcode w = RiscV.LUI) :
    (cycle s).current =
      (executeU { s with instrOpcode := w } ((opcode w).setWidth 32)
        ((Isa.rd w).setWidth 32) ((immU w).setWidth 32)).next := by
  have ht : decodeInstrType w = some .u := by
    rcases hop with hop | hop <;> exact (decodeInstrType_eq hop).trans rfl
  rw [cycle_current hw.word ht]
  show (decodeU _ w).next = _
  simp only [decodeU, field_rd, field_immU, field_opcode]

/-- The value that `execute_u` writes to a register other than `x0`. -/
theorem setReg_upper {rd : BitVec 5} (hrd : rd ≠ 0) (v pc : BitVec 32) :
    ((s.next.setReg (rd.setWidth 32) (if rd.setWidth 32 ≠ (0 : BitVec 32) then v else 0)).setPc
      pc).regs rd = v := by
  rw [setReg_field, if_pos (mt (field_eq_zero rd).mp hrd)]
  show Function.update s.next.regs rd v rd = v
  exact Function.update_self _ _ _

/-- The simulator computes with the immediate that the decoder sends to the execute stage. -/
theorem computesWith (w : Word) : ComputesWith w (decode w) (decode w).signExtndImm where
  alu hop f hf s hw := by
    have hop' : opcode w = I_TYPE_1 := hop
    rw [signExtndImm_i (Or.inr hop'), cycle_i hw (Or.inr hop'), hop']
    exact congrArg (fun t : Iss.Sim => t.next.regs)
      (executeI_alu_next (s := { s with instrOpcode := w }) hw.next hf _ _ _)
  load hop op hf hrd s hw := by
    have hop' : opcode w = I_TYPE_0 := hop
    rw [signExtndImm_i (Or.inl hop'), cycle_i hw (Or.inl hop'), hop']
    have hload := executeI_load_next (s := { s with instrOpcode := w }) hw.next hf hrd
      (Isa.rs1 w) (immI w)
    exact (congrArg (fun t : Iss.Sim => t.next.regs (Isa.rd w)) hload).trans
      (Function.update_self _ _ _)
  jalr hop hf s hw := by
    have hop' : opcode w = I_TYPE_0 := hop
    have hf' : Isa.funct3 w = 7 := hf
    rw [signExtndImm_i (Or.inl hop'), cycle_i hw (Or.inl hop'), hop', hf', ← extend_immI]
    exact (executeI_jalr { s with instrOpcode := w } _ _ _).1.trans
      (congrArg (· + _) (reg_field s.current (Isa.rs1 w)))
  branch hop f hf s hw := by
    have hop' : opcode w = B_TYPE := hop
    rw [signExtndImm_b hop', cycle_current hw.word ((decodeInstrType_eq hop').trans rfl)]
    show (decodeB _ w).next.pc = _
    simp only [decodeB, field_rs1, field_rs2, field_funct3, field_immB]
    exact congrArg (fun t : Iss.Sim => t.next.pc)
      (executeB_next (s := { s with instrOpcode := w }) hw.next hf _ _ _)
  lui hop hrd s hw := by
    have hop' : opcode w = RiscV.LUI := hop
    rw [signExtndImm_u (Or.inr hop'), cycle_u hw (Or.inr hop'), hop', ← shl_12_eq]
    exact setReg_upper hrd _ _
  auipc hop hrd s hw := by
    have hop' : opcode w = RiscV.AUIPC := hop
    rw [signExtndImm_u (Or.inl hop'), cycle_u hw (Or.inl hop'), hop', ← shl_12_eq]
    exact setReg_upper hrd _ _
  jal hop s hw := by
    have hop' : opcode w = J_TYPE := hop
    rw [signExtndImm_j hop', cycle_current hw.word ((decodeInstrType_eq hop').trans rfl),
      ← extend_immJ, ← field_immJ]
    exact (executeJ_jumps { s with instrOpcode := w } _ _).1

end Computes

/-- The decoder and the simulator agree on every word. -/
theorem decode_agrees (w : Word) : DecodeAgrees w (decode w) where
  classes := classes_eq w
  rd := field_rd w
  rs1 := field_rs1 w
  rs2 := field_rs2 w
  funct3 := field_funct3 w
  funct7 := field_funct7 w
  execute := dispatch_eq w
  imm := computesWith w

end SimpleCpu.RiscV
