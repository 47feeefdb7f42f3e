import SimpleCpu.RiscV.Access

/-!
# What the simulator changes

`cycles_frame` bounds what a cycle changes, for every word and in every run: one general
register at most, no memory but the four bytes of a store, and `RUN_BIT` only for a word
of no format.
-/

namespace SimpleCpu.RiscV.Iss

open SimpleCpu.Bits SimpleCpu.Iss SimpleCpu.RiscV.Isa

/-- The one general register that a word may change. -/
def designated (w : BitVec 32) : Option (BitVec 5) :=
  match decodeInstrType w with
  | some .r | some .i | some .u | some .j => some (rd w)
  | some .s | some .b | none => none

/-! ## One case of a switch -/

/-- Of the general registers in `NEXT_STATE` a case assigns at most to `d`, and register 0
keeps its zero. -/
structure Writes (d : Option (BitVec 5)) (s s' : Sim) : Prop where
  regs : ∀ r, s'.next.regs r ≠ s.next.regs r → d = some r
  zero : s.next.regs 0 = 0 → s'.next.regs 0 = 0
  runBit : s'.runBit = s.runBit

namespace Writes

variable {d : Option (BitVec 5)} {s : Sim}

theorem same : Writes d s s := ⟨fun _ h => absurd rfl h, id, rfl⟩

theorem setPc (pc : BitVec 32) : Writes d s (s.assign (·.setPc pc)) :=
  ⟨fun _ h => absurd rfl h, id, rfl⟩

/-- A store. -/
theorem store (a value pc : BitVec 32) :
    Writes d s ((s.memWrite a value).assign (·.setPc pc)) :=
  ⟨fun _ h => absurd rfl h, id, rfl⟩

/-- A register, before or after the program counter. -/
theorem update {s' : Sim} {r : BitVec 5} {v : BitVec 32} (hr : r = 0 → v = 0)
    (hregs : s'.next.regs = Function.update s.next.regs r v) (hbit : s'.runBit = s.runBit) :
    Writes (some r) s s' := by
  refine ⟨fun r' h => ?_, fun h0 => ?_, hbit⟩
  · by_contra hne
    rw [hregs, Function.update_of_ne fun heq => hne (congrArg some heq.symm)] at h
    exact h rfl
  · rw [hregs, Function.update_apply]
    split
    next heq => exact hr heq.symm
    next => exact h0

theorem setReg_setPc {r : BitVec 5} (hr : r ≠ 0) (value pc : BitVec 32) :
    Writes (some r) s (s.assign fun n => (n.setReg (r.setWidth 32) value).setPc pc) := by
  refine update (v := value) (fun h => absurd h hr) ?_ rfl
  simp only [setReg_field, Sim.assign, CpuState.setPc]

/-- One more case of a switch. -/
theorem ite {p : Prop} [Decidable p] {s₁ s₂ : Sim} (h₁ : p → Writes d s s₁)
    (h₂ : ¬ p → Writes d s s₂) : Writes d s (if p then s₁ else s₂) := by
  split
  next h => exact h₁ h
  next h => exact h₂ h

end Writes

section Cases

variable (s : Sim)

theorem executeR_writes (rs1 rs2 : BitVec 32) (rd : BitVec 5) (funct7 funct3 : BitVec 32) :
    Writes (some rd) s (executeR s rs1 rs2 (rd.setWidth 32) funct7 funct3) := by
  unfold executeR
  dsimp only
  refine .ite (fun _ => .setPc _) fun hrd => ?_
  have hrd' : rd ≠ 0 := mt (field_eq_zero rd).mpr hrd
  repeat' refine Writes.ite (fun _ => ?_) fun _ => ?_
  all_goals first
    | exact .setReg_setPc hrd' _ _
    | exact .same

theorem executeI_writes (funct3 opcode rs1 : BitVec 32) (rd : BitVec 5) (imm : BitVec 32) :
    Writes (some rd) s (executeI s funct3 opcode rs1 (rd.setWidth 32) imm) := by
  have hlink : rd.setWidth 32 ≠ (0 : BitVec 32) → ∀ value pc : BitVec 32,
      Writes (some rd) s ((s.assign (·.setPc pc)).assign (·.setReg (rd.setWidth 32) value)) := by
    intro hrd value pc
    refine Writes.update (v := value) (fun h => absurd ((field_eq_zero rd).mpr h) hrd) ?_ rfl
    simp only [setReg_field, Sim.assign, CpuState.setPc]
  unfold executeI
  dsimp only
  repeat' refine Writes.ite (fun _ => ?_) fun _ => ?_
  all_goals first
    | exact .setPc _
    | exact hlink ‹_› _ _
    | exact .setReg_setPc (mt (field_eq_zero rd).mpr ‹_›) _ _

theorem executeS_writes (funct3 rs1 rs2 imm : BitVec 32) :
    Writes none s (executeS s funct3 rs1 rs2 imm) := by
  unfold executeS
  repeat' refine Writes.ite (fun _ => ?_) fun _ => ?_
  all_goals first
    | exact .store _ _ _
    | exact .same

theorem executeB_writes (funct3 rs1 rs2 imm : BitVec 32) :
    Writes none s (executeB s funct3 rs1 rs2 imm) := by
  unfold executeB
  repeat' refine Writes.ite (fun _ => ?_) fun _ => ?_
  all_goals exact .setPc _

theorem executeU_writes (opcode : BitVec 32) (rd : BitVec 5) (imm : BitVec 32) :
    Writes (some rd) s (executeU s opcode (rd.setWidth 32) imm) := by
  have hwrite : ∀ value pc : BitVec 32, Writes (some rd) s (s.assign fun n =>
      (n.setReg (rd.setWidth 32) (if rd.setWidth 32 ≠ (0 : BitVec 32) then value else 0)).setPc
        pc) := by
    intro value pc
    refine Writes.update (v := if rd.setWidth 32 ≠ (0 : BitVec 32) then value else 0)
      (fun h => if_neg (not_not.mpr ((field_eq_zero rd).mpr h))) ?_ rfl
    simp only [setReg_field, Sim.assign, CpuState.setPc]
  unfold executeU
  dsimp only
  exact .ite (fun _ => hwrite _ _) fun _ => .ite (fun _ => hwrite _ _) fun _ => .same

theorem executeJ_writes (rd : BitVec 5) (imm : BitVec 32) :
    Writes (some rd) s (executeJ s (rd.setWidth 32) imm) := by
  unfold executeJ
  dsimp only
  refine .ite (fun hrd => ?_) fun _ => .setPc _
  refine Writes.update (v := s.current.pc + 4)
    (fun h => absurd ((field_eq_zero rd).mpr h) hrd) ?_ rfl
  simp only [setReg_field, Sim.assign, CpuState.setPc]

end Cases

/-! ## One cycle -/

section Cycle

variable {s : Sim} {w : BitVec 32}

theorem dispatch_writes {t : InstrType} (ht : decodeInstrType w = some t) :
    Writes (designated w) s (dispatch t s w) := by
  unfold designated
  rw [ht]
  cases t with
  | r =>
      show Writes _ s (decodeR s w)
      simp only [decodeR, field_rd]
      exact executeR_writes s _ _ _ _ _
  | i =>
      show Writes _ s (decodeI s w)
      simp only [decodeI, field_rd]
      exact executeI_writes s _ _ _ _ _
  | s => exact executeS_writes s _ _ _ _
  | b => exact executeB_writes s _ _ _ _
  | u =>
      show Writes _ s (decodeU s w)
      simp only [decodeU, field_rd]
      exact executeU_writes s _ _ _
  | j =>
      show Writes _ s (decodeJ s w)
      simp only [decodeJ, field_rd]
      exact executeJ_writes s _ _

/-- What one cycle leaves alone, given the word it executes. -/
structure Frame (w : BitVec 32) (s s' : Sim) : Prop where
  next : s'.next = s'.current
  zero : s.current.regs 0 = 0 → s'.current.regs 0 = 0
  regs : ∀ r, s'.current.regs r ≠ s.current.regs r → designated w = some r
  mem : ∀ i offset, s'.mem i offset ≠ s.mem i offset → decodeInstrType w = some .s ∧
    ∃ a start, access s w = some a ∧ findRegion a memRegions 0 = some (i, start) ∧
      (offset - (a - start)).toNat < 4
  runBit : s'.runBit = (s.runBit && (decodeInstrType w).isSome)

/-- Only the S-type writes memory. -/
theorem executeWord_store (h : (executeWord s w).mem ≠ s.mem) :
    decodeInstrType w = some .s := by
  by_contra hno
  refine h ?_
  unfold executeWord
  cases ht : decodeInstrType w with
  | none => rfl
  | some t =>
      cases t with
      | s => exact absurd ht hno
      | i => exact executeI_mem _ _ _ _ _ _
      | r =>
          show (executeR _ _ _ _ _ _).mem = _
          unfold executeR
          simp only [Sim.assign, apply_ite Sim.mem, ite_self]
      | b =>
          show (executeB _ _ _ _ _).mem = _
          unfold executeB
          simp only [Sim.assign, apply_ite Sim.mem, ite_self]
      | u =>
          show (executeU _ _ _ _).mem = _
          unfold executeU
          simp only [Sim.assign, apply_ite Sim.mem, ite_self]
      | j =>
          show (executeJ _ _ _).mem = _
          unfold executeJ
          simp only [Sim.assign, apply_ite Sim.mem, ite_self]

/-- It writes four bytes there. -/
theorem executeWord_stored {i : Nat} {offset : BitVec 32}
    (h : (executeWord s w).mem i offset ≠ s.mem i offset) :
    ∃ a start, access s w = some a ∧ findRegion a memRegions 0 = some (i, start) ∧
      (offset - (a - start)).toNat < 4 := by
  rcases executeWord_mem s w with hmem | ⟨a, value, ha, hmem⟩
  · exact absurd (congrFun (congrFun hmem i) offset) h
  · rw [hmem] at h
    cases hfind : findRegion a memRegions 0 with
    | none => exact absurd (congrFun (congrFun (memWrite32_of_outside hfind) i) offset) h
    | some r =>
        obtain ⟨j, start⟩ := r
        have hij : i = j := by
          by_contra hij
          exact h (memWrite32_byte_of_disjoint hfind fun heq => absurd heq hij)
        subst hij
        refine ⟨a, start, ha, hfind, ?_⟩
        by_contra hfar
        exact h (memWrite32_byte_of_disjoint hfind fun _ => by omega)

theorem executeWord_regs (r : BitVec 5) (h : (executeWord s w).next.regs r ≠ s.next.regs r) :
    designated w = some r := by
  unfold executeWord at h
  cases ht : decodeInstrType w with
  | none =>
      rw [ht] at h
      exact absurd rfl h
  | some t =>
      rw [ht] at h
      exact (dispatch_writes ht).regs r h

theorem executeWord_zero (h : s.next.regs 0 = 0) : (executeWord s w).next.regs 0 = 0 := by
  unfold executeWord
  cases ht : decodeInstrType w with
  | none => exact h
  | some t => exact (dispatch_writes ht).zero h

theorem executeWord_runBit :
    (executeWord s w).runBit = (s.runBit && (decodeInstrType w).isSome) := by
  unfold executeWord
  cases ht : decodeInstrType w with
  | none => exact (Bool.and_false _).symm
  | some t => exact (dispatch_writes ht).runBit.trans (Bool.and_true _).symm

/-- The fetched word, executed. -/
theorem cycle_eq_executeWord (hw : s.memRead s.current.pc = w) :
    cycle s = { executeWord { s with instrOpcode := w } w with
      current := (executeWord { s with instrOpcode := w } w).next } := by
  unfold cycle
  rw [processInstruction_eq, hw]

theorem frame_cycle (hs : s.next = s.current) :
    Frame (s.memRead s.current.pc) s (cycle s) where
  next := rfl
  zero h := by
    rw [cycle_eq_executeWord rfl]
    exact executeWord_zero (by rw [show Sim.next _ = s.next from rfl, hs, h])
  regs r h := by
    rw [cycle_eq_executeWord rfl] at h
    refine executeWord_regs (s := { s with instrOpcode := s.memRead s.current.pc }) r fun heq =>
      h ?_
    exact heq.trans (congrFun (congrArg CpuState.regs hs) r)
  mem i offset h := by
    rw [cycle_eq_executeWord rfl] at h
    exact ⟨executeWord_store fun heq => h (congrFun (congrFun heq i) offset),
      executeWord_stored (s := { s with instrOpcode := s.memRead s.current.pc }) h⟩
  runBit := by
    rw [cycle_eq_executeWord rfl]
    exact executeWord_runBit

/-- Every cycle of a run keeps to the frame of the word it executes. -/
theorem cycles_frame (hs : s.next = s.current) (k : Nat) :
    Frame ((cycles s k).memRead (cycles s k).current.pc) (cycles s k) (cycles s (k + 1)) := by
  induction k with
  | zero => exact frame_cycle hs
  | succ k ih => exact frame_cycle ih.next

end Cycle

/-- `SB x5, 2(x1)`, which stores register 1 at an address from register 5. -/
theorem cycles_frame_sb :
    Frame 0x00508123 (loadProgram (initMemory true) [(0x2000, 0x00508123)])
      (cycles (loadProgram (initMemory true) [(0x2000, 0x00508123)]) 1) := by
  have hframe := cycles_frame
    (s := loadProgram (initMemory true) [(0x2000, 0x00508123)]) rfl 0
  have hword : (cycles (loadProgram (initMemory true) [(0x2000, 0x00508123)]) 0).memRead
      (cycles (loadProgram (initMemory true) [(0x2000, 0x00508123)]) 0).current.pc =
        0x00508123 := by
    decide +kernel
  rw [hword] at hframe
  exact hframe

end SimpleCpu.RiscV.Iss
