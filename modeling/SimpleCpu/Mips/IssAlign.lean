import SimpleCpu.Mips.IssFrame

/-!
# The program counter stays at a word

`cycle_aligned`: from a multiple of four every word leads to a multiple of four, unless it
jumps to a register that holds none.
-/

namespace SimpleCpu.Mips.Iss

open SimpleCpu.Bits SimpleCpu.Iss SimpleCpu.Mips.Isa

/-! ## Offsets -/

theorem shl_two_and_3 (x : BitVec 32) : x <<< 2 &&& 3 = 0 := by
  apply BitVec.eq_of_getLsbD_eq
  intro i hi
  rw [BitVec.getLsbD_and, BitVec.getLsbD_shiftLeft]
  interval_cases i <;> simp

/-- The low bits of a branch offset are shifted in. -/
theorem branchOffset_aligned (imm : BitVec 32) : (branchOffset imm).toNat % 4 = 0 := by
  rw [← and_3_eq_zero_iff]
  unfold branchOffset
  dsimp only
  split
  next => rw [BitVec.and_or_distrib_right, shl_two_and_3]; rfl
  next => exact shl_two_and_3 imm

/-- So are those of a jump target. -/
theorem jumpIndex_aligned (pc target : BitVec 32) :
    let index : BitVec 32 := target <<< 2
    ((pc &&& 0xF0000000) ||| index).toNat % 4 = 0 := by
  intro index
  have hhigh : pc &&& 0xF0000000 &&& 3 = 0 := by
    rw [BitVec.and_assoc]
    exact BitVec.and_zero
  rw [← and_3_eq_zero_iff, BitVec.and_or_distrib_right, hhigh, shl_two_and_3]
  rfl

/-- A multiple of four. -/
structure Aligned (pc : BitVec 32) : Prop where
  mod_eq : pc.toNat % 4 = 0

section Aligned

variable {pc : BitVec 32} (h : Aligned pc)

include h

theorem Aligned.add_four : Aligned (pc + 4) := by
  have hfour : (4 : BitVec 32).toNat = 4 := rfl
  have hmod := h.mod_eq
  refine ⟨?_⟩
  rw [BitVec.toNat_add]
  omega

theorem Aligned.branch (imm : BitVec 32) (taken : Bool) :
    Aligned (if taken = true then pc + 4 + branchOffset imm else pc + 4) := by
  have hnext := h.add_four
  split
  next =>
    have hoff := branchOffset_aligned imm
    have hmod := hnext.mod_eq
    refine ⟨?_⟩
    rw [BitVec.toNat_add]
    omega
  next => exact hnext

end Aligned

/-! ## One cycle -/

/-- The word goes to an address that a register holds. -/
def jumpsReg (w : BitVec 32) : Bool :=
  decodeInstrType w = .r ∧ rd w ≠ 0 ∧ (w &&& 0x3F = JR ∨ w &&& 0x3F = JALR)

/-- One more case of a switch. -/
theorem aligned_ite {c : Prop} [Decidable c] {s₁ s₂ : Sim} (h₁ : c → Aligned s₁.next.pc)
    (h₂ : ¬ c → Aligned s₂.next.pc) : Aligned (if c then s₁ else s₂).next.pc := by
  split
  next h => exact h₁ h
  next h => exact h₂ h

section Cases

variable {s : Sim} (hnext : Aligned s.next.pc) (hpc : Aligned s.current.pc)

include hnext hpc

theorem executeR_aligned {rs rt rd shamt funct : BitVec 32}
    (hjump : rd ≠ 0 → funct = JR ∨ funct = JALR → Aligned (s.current.reg rs)) :
    Aligned (executeR s rs rt rd shamt funct).next.pc := by
  have hgo := hpc.add_four
  unfold executeR
  dsimp only
  refine aligned_ite (fun _ => hgo) fun hguard => ?_
  have hrd : funct ≠ SYSCALL → rd ≠ 0 := by
    rintro hsys rfl
    exact hguard ⟨rfl, hsys⟩
  repeat' refine aligned_ite (fun h => ?_) fun _ => ?_
  all_goals first
    | exact hnext
    | simp only [Sim.assign, CpuState.setPc, CpuState.setReg]
  all_goals first
    | exact hgo
    | (subst h; exact hjump (hrd (by decide)) (Or.inl rfl))
    | (subst h; exact hjump (hrd (by decide)) (Or.inr rfl))

theorem executeI_aligned (opcode rs rt imm : BitVec 32) :
    Aligned (executeI s opcode rs rt imm).next.pc := by
  have hgo := hpc.add_four
  have hbranch := hpc.branch imm
  unfold executeI
  dsimp only
  repeat' refine aligned_ite (fun h => ?_) fun _ => ?_
  all_goals first
    | exact hnext
    | simp only [Sim.assign, Sim.memWrite, CpuState.setPc, CpuState.setReg]
  all_goals first
    | exact hgo
    | exact hbranch _

omit hpc in
theorem executeJ_aligned (opcode target : BitVec 32) :
    Aligned (executeJ s opcode target).next.pc := by
  have hindex : Aligned _ := ⟨jumpIndex_aligned (s.current.pc + 4) target⟩
  unfold executeJ
  exact aligned_ite (fun _ => hindex) fun _ => aligned_ite (fun _ => hindex) fun _ => hnext

end Cases

/-- The simulator goes on at a multiple of four. -/
theorem cycle_aligned {s : Sim} {w : BitVec 32} (hs : s.next = s.current)
    (hw : s.memRead s.current.pc = w) (hpc : Aligned s.current.pc)
    (hjump : jumpsReg w = true → Aligned (s.current.regs (rs w))) :
    Aligned (cycle s).current.pc := by
  have hnext : Aligned s.next.pc := by
    rw [hs]
    exact hpc
  have hdispatch :
      Aligned (dispatch (decodeInstrType w) { s with instrOpcode := w } w).next.pc := by
    cases htype : decodeInstrType w with
    | r =>
        refine executeR_aligned (s := { s with instrOpcode := w }) hnext hpc fun hrd hfunct => ?_
        rw [field_rd] at hrd
        rw [field_rs, reg_field]
        refine hjump ?_
        unfold jumpsReg
        rw [decide_eq_true_iff]
        exact ⟨htype, fun h => hrd ((field_eq_zero _).mpr h), hfunct⟩
    | i => exact executeI_aligned (s := { s with instrOpcode := w }) hnext hpc _ _ _ _
    | j => exact executeJ_aligned (s := { s with instrOpcode := w }) hnext _ _
  unfold cycle
  rw [processInstruction_eq hw]
  exact hdispatch

end SimpleCpu.Mips.Iss
