import SimpleCpu.RiscV.IssCorrect

/-!
# The word of memory an instruction touches

`access` is the address that the simulator passes to `mem_read_32` or `mem_write_32` when
it executes a word.  What an instruction computes depends on memory only there
(`executeWord_next_congr`), and memory changes only there (`executeWord_mem`).
-/

namespace SimpleCpu.RiscV.Iss

open SimpleCpu.Iss

/-- `process_instruction`, once the word has been read. -/
def executeWord (s : Sim) (w : BitVec 32) : Sim :=
  match decodeInstrType w with
  | some t => dispatch t s w
  | none => { s with runBit := false }

theorem processInstruction_eq (s : Sim) :
    processInstruction s =
      executeWord { s with instrOpcode := s.memRead s.current.pc }
        (s.memRead s.current.pc) := by
  unfold processInstruction executeWord
  dsimp only
  cases decodeInstrType (s.memRead s.current.pc) with
  | none => rfl
  | some t => cases t <;> rfl

/-- The `address` of `execute_i`, for the codes that load. -/
def accessI (s : Sim) (funct3 opcode rs1 imm : BitVec 32) : Option (BitVec 32) :=
  let funct := ((opcode >>> 4 &&& 0x1) <<< 4) ||| funct3
  let imm := extend 11 20 imm
  let address := s.current.reg rs1 + imm
  if funct = LB ∨ funct = LH ∨ funct = LW ∨ funct = LBU ∨ funct = LHU then some address
  else none

/-- The `address` of `execute_s`. -/
def accessS (s : Sim) (funct3 rs2 imm : BitVec 32) : Option (BitVec 32) :=
  if funct3 = SB then some (s.current.reg rs2 + extend 11 12 imm)
  else if funct3 = SH then some (s.current.reg rs2 + extend 15 16 imm)
  else if funct3 = SW then some ((s.current.reg rs2 + extend 15 16 imm) &&& 0xFFFFFFFC)
  else none

/-- The access that executing a word makes. -/
def access (s : Sim) (w : BitVec 32) : Option (BitVec 32) :=
  match decodeInstrType w with
  | some .i =>
      accessI s (w >>> 12 &&& 0x07) (w &&& 0x7F) (w >>> 15 &&& 0x1F) (w >>> 20 &&& 0xFFF)
  | some .s =>
      accessS s (w >>> 12 &&& 0x07) (w >>> 20 &&& 0x1F)
        (((w >>> 25 &&& 0x7F) <<< 5) ||| (w >>> 7 &&& 0x1F))
  | _ => none

section Access

variable {s : Sim} {m : Memory}

/-- A load reads its word and nothing else. -/
theorem executeI_next_congr {funct3 opcode rs1 rd imm : BitVec 32}
    (h : ∀ a ∈ accessI s funct3 opcode rs1 imm, memRead32 memRegions m a = s.memRead a) :
    (executeI { s with mem := m } funct3 opcode rs1 rd imm).next =
      (executeI s funct3 opcode rs1 rd imm).next := by
  unfold accessI at h
  unfold executeI
  dsimp only at h ⊢
  generalize ((opcode >>> 4 &&& 0x1) <<< 4) ||| funct3 = funct at h ⊢
  by_cases hload : funct = LB ∨ funct = LH ∨ funct = LW ∨ funct = LBU ∨ funct = LHU
  · rw [if_pos hload] at h
    have hread : ({ s with mem := m } : Sim).memRead (s.current.reg rs1 + extend 11 20 imm) =
        s.memRead (s.current.reg rs1 + extend 11 20 imm) := h _ rfl
    simp only [hread, Sim.assign, apply_ite Sim.next]
  · simp only [not_or] at hload
    simp only [hload, if_false, Sim.assign, apply_ite Sim.next]

theorem executeI_mem (s : Sim) (funct3 opcode rs1 rd imm : BitVec 32) :
    (executeI s funct3 opcode rs1 rd imm).mem = s.mem := by
  unfold executeI
  simp only [Sim.assign, apply_ite Sim.mem, ite_self]

/-- A store writes one word, at its address. -/
theorem executeS_mem (s : Sim) (funct3 rs1 rs2 imm : BitVec 32) :
    (executeS s funct3 rs1 rs2 imm).mem = s.mem ∧ accessS s funct3 rs2 imm = none ∨
      ∃ a value, accessS s funct3 rs2 imm = some a ∧
        (executeS s funct3 rs1 rs2 imm).mem = memWrite32 memRegions s.mem a value := by
  by_cases hb : funct3 = SB
  · subst hb
    exact Or.inr ⟨_, _, rfl, rfl⟩
  by_cases hh : funct3 = SH
  · subst hh
    exact Or.inr ⟨_, _, rfl, rfl⟩
  by_cases hw : funct3 = SW
  · subst hw
    exact Or.inr ⟨_, _, rfl, rfl⟩
  · unfold executeS accessS
    simp only [hb, hh, hw, if_false, and_self, true_or]

/-- The other formats do not read memory. -/
theorem executeWord_next_congr {w : BitVec 32}
    (h : ∀ a ∈ access s w, memRead32 memRegions m a = s.memRead a) :
    (executeWord { s with mem := m } w).next = (executeWord s w).next := by
  unfold access at h
  unfold executeWord
  cases ht : decodeInstrType w with
  | none => rfl
  | some t =>
      rw [ht] at h
      cases t with
      | r =>
          show (executeR _ _ _ _ _ _).next = (executeR _ _ _ _ _ _).next
          unfold executeR
          simp only [Sim.assign, apply_ite Sim.next]
      | i => exact executeI_next_congr h
      | s =>
          show (executeS _ _ _ _ _).next = (executeS _ _ _ _ _).next
          unfold executeS
          simp only [Sim.assign, Sim.memWrite, apply_ite Sim.next]
      | b =>
          show (executeB _ _ _ _ _).next = (executeB _ _ _ _ _).next
          unfold executeB
          simp only [Sim.assign, apply_ite Sim.next]
      | u =>
          show (executeU _ _ _ _).next = (executeU _ _ _ _).next
          unfold executeU
          simp only [Sim.assign, apply_ite Sim.next]
      | j =>
          show (executeJ _ _ _).next = (executeJ _ _ _).next
          unfold executeJ
          simp only [Sim.assign, apply_ite Sim.next]

/-- Only a store changes memory, and only the word at its address. -/
theorem executeWord_mem (s : Sim) (w : BitVec 32) :
    (executeWord s w).mem = s.mem ∨
      ∃ a value, access s w = some a ∧
        (executeWord s w).mem = memWrite32 memRegions s.mem a value := by
  unfold access executeWord
  cases ht : decodeInstrType w with
  | none => exact Or.inl rfl
  | some t =>
      cases t with
      | r =>
          refine Or.inl ?_
          show (executeR _ _ _ _ _ _).mem = _
          unfold executeR
          simp only [Sim.assign, apply_ite Sim.mem, ite_self]
      | i => exact Or.inl (executeI_mem _ _ _ _ _ _)
      | s =>
          rcases executeS_mem s (w >>> 12 &&& 0x07) (w >>> 15 &&& 0x1F) (w >>> 20 &&& 0x1F)
            (((w >>> 25 &&& 0x7F) <<< 5) ||| (w >>> 7 &&& 0x1F)) with ⟨hmem, -⟩ | hmem
          · exact Or.inl hmem
          · exact Or.inr hmem
      | b =>
          refine Or.inl ?_
          show (executeB _ _ _ _ _).mem = _
          unfold executeB
          simp only [Sim.assign, apply_ite Sim.mem, ite_self]
      | u =>
          refine Or.inl ?_
          show (executeU _ _ _ _).mem = _
          unfold executeU
          simp only [Sim.assign, apply_ite Sim.mem, ite_self]
      | j =>
          refine Or.inl ?_
          show (executeJ _ _ _).mem = _
          unfold executeJ
          simp only [Sim.assign, apply_ite Sim.mem, ite_self]

end Access

end SimpleCpu.RiscV.Iss
