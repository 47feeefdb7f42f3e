import SimpleCpu.Mips.IssFrame
import SimpleCpu.Mips.SingleCycle
import SimpleCpu.Mips.Refinement

/-!
# Jump targets

`J` and `JAL` in the two datapaths and in the simulator.  The datapaths shift the target
field inside a concatenation, where the shift keeps 26 bits, and the concatenation is four
bits short of a word.

* `cycle_jump_pc`: the simulator goes to the segment of the next word, the target, `00`.
* `jump_target_iff`: the datapaths go there within the first 64 MB only.
-/

namespace SimpleCpu.Mips

open SimpleCpu.Rtl SimpleCpu.Mips.Isa SimpleCpu.Mips.Iss

/-- The word is `J` or `JAL`. -/
def IsJump (w : Word) : Prop := op w = 2 ∨ op w = 3

section Jumps

variable {pc w : Word}

/-- The simulator, whatever `NEXT_STATE` holds before. -/
theorem cycle_jump_pc {s : Sim} (hw : s.memRead s.current.pc = w) (hj : IsJump w) :
    (cycle s).current.pc = jumpTarget s.current.pc (target w) := by
  have htype : decodeInstrType w = .j := by
    rw [decodeInstrType_eq]
    obtain h | h := hj <;> rw [h] <;> rfl
  unfold cycle
  rw [processInstruction_eq hw, htype]
  show (executeJ { s with instrOpcode := w } (w >>> 26 &&& 0x3F)
    (w &&& 0x3FFFFFF)).next.pc = _
  rw [field_op, field_target]
  obtain h | h := hj <;> rw [h] <;> rfl

theorem encodes_jump (hj : IsJump w) : ∃ x : Instr, Encodes w x ∧ x.controls.jump = true := by
  obtain h | h := hj
  · exact ⟨_, .j h, rfl⟩
  · exact ⟨_, .jal h, rfl⟩

/-- The program counter of the single-cycle processor behind a jump. -/
theorem SingleCycle.nextPc_of_jump {imem : Word → Word} {t : SingleCycle.Top}
    (hw : t.instr imem = w) (hj : IsJump w) :
    t.nextPc imem = nextJmpPc (t.currPc + 4) w := by
  subst hw
  obtain ⟨x, henc, hjump⟩ := encodes_jump hj
  have hctl : (t.ctl imem).jump = true := by
    rw [SingleCycle.ctl_eq henc]
    exact hjump
  unfold SingleCycle.Top.nextPc
  rw [if_pos hctl, SingleCycle.nextSeqPc_eq]

/-- The next fetch address of the pipeline with a jump in its issue stage and no branch
taken ahead of it. -/
theorem nextCalPc_of_jump {p : Top} (hw : p.iss.instr = w) (hj : IsJump w)
    (htaken : p.branchTaken = false) (hforce : p.forcePcUpdate = false) :
    p.nextCalPc false = nextJmpPc p.iss.nextPc w := by
  subst hw
  obtain ⟨x, henc, hjump⟩ := encodes_jump hj
  have hissue : (issueStage false p.iss).jump = true := by
    show (control (decode p.iss.instr).op (decode p.iss.instr).funct).jump = true
    have hctl : control (decode p.iss.instr).op (decode p.iss.instr).funct = x.controls :=
      control_eq henc
    rw [hctl]
    exact hjump
  unfold Top.nextCalPc
  rw [hforce, htaken, hissue]
  rfl

end Jumps

/-- At every program counter and with every target, the simulator goes where the
architecture says.  Either datapath does so exactly for a target field below `2^24` and a
next word below `2^28`. -/
theorem jump_target_iff {pc w : Word} (hj : IsJump w) {s : Sim} (hs : s.current.pc = pc)
    (hsw : s.memRead pc = w) {p : Top} (hp : p.iss.nextPc = pc + 4) (hpw : p.iss.instr = w)
    (htaken : p.branchTaken = false) (hforce : p.forcePcUpdate = false)
    {imem : Word → Word} {t : SingleCycle.Top} (ht : t.currPc = pc)
    (htw : t.instr imem = w) :
    (cycle s).current.pc = (pc + 4).extractLsb' 28 4 ++ (target w ++ 0#2) ∧
      (p.nextCalPc false = (cycle s).current.pc ↔
        (pc + 4).toNat < 2 ^ 28 ∧ (target w).toNat < 2 ^ 24) ∧
      (t.nextPc imem = (cycle s).current.pc ↔
        (pc + 4).toNat < 2 ^ 28 ∧ (target w).toNat < 2 ^ 24) := by
  have hiss : (cycle s).current.pc = jumpTarget pc (target w) := by
    have h := cycle_jump_pc (hs.symm ▸ hsw) hj
    rwa [hs] at h
  refine ⟨hiss.trans (jumpTarget_eq_append pc (target w)), ?_, ?_⟩
  · rw [hiss, nextCalPc_of_jump hpw hj htaken hforce, hp]
    exact nextJmpPc_eq_iff pc w
  · rw [hiss, SingleCycle.nextPc_of_jump htw hj, ht]
    exact nextJmpPc_eq_iff pc w

/-- The pipeline with `J 0x40` of address 0 in its issue stage. -/
def jumpingTop : Top :=
  { Top.cleared (fun _ => 0) with iss := { nextPc := 4, instr := 0x08000040 } }

theorem jump_target_0x40 :
    (cycle (loadProgram initMemory [(0, 0x08000040)])).current.pc = 0x100 ∧
      jumpingTop.nextCalPc false = 0x100 := by
  have hj : IsJump 0x08000040 := .inl (by decide)
  have hs : (loadProgram initMemory [(0, 0x08000040)]).current.pc = 0 := rfl
  have hp : jumpingTop.iss.nextPc = 0 + 4 := rfl
  have ht : (SingleCycle.Top.cleared fun _ => 0).currPc = 0 := rfl
  have htw : (SingleCycle.Top.cleared fun _ => 0).instr (fun _ => 0x08000040) = 0x08000040 :=
    rfl
  have h := jump_target_iff hj hs (by decide +kernel) hp rfl (by decide +kernel)
    (by decide +kernel) ht htw
  have hsim := h.1.trans (show _ = (0x100 : Word) by decide)
  exact ⟨hsim, (h.2.1.mpr ⟨by decide, by decide⟩).trans hsim⟩

/-- A `J` at address 0 to word `2^24` goes to address 0 again. -/
theorem jump_target_wraps :
    ¬ ∀ pc w : Word, IsJump w →
      nextJmpPc (pc + 4) w = (pc + 4).extractLsb' 28 4 ++ (target w ++ 0#2) := by
  intro h
  exact absurd (h 0 0x09000000 (.inl (by decide))) (by decide)

end SimpleCpu.Mips
