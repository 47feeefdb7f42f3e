import SimpleCpu.Mips.SignedCompare
import SimpleCpu.Mips.SingleCycle

/-!
# The signed comparisons of a program

The single-cycle processor does what an instruction says, but for the signed comparisons of
the operands in `signWrong`.  `clock_follows_iff` is one clock, and `Boots.lockstep_of_right`
a run.
-/

namespace SimpleCpu.Mips

open SimpleCpu.Pipeline SimpleCpu.Mips.Isa SimpleCpu.Mips.Iss

/-- The processor has this comparison wrong, and there is a register that keeps it. -/
def Isa.Instr.Miscompares (regs : BitVec 5 → BitVec 32) : Instr → Prop
  | .r .slt rd rs rt => rd ≠ 0 ∧ signWrong (regs rs) (regs rt)
  | .i .slti rt rs imm => rt ≠ 0 ∧ signWrong (regs rs) (imm.signExtend 32)
  | _ => False

instance (regs : BitVec 5 → BitVec 32) (x : Instr) : Decidable (x.Miscompares regs) :=
  match x with
  | .r .slt .. | .i .slti .. => inferInstanceAs (Decidable (_ ∧ _))
  | .r .add .. | .r .addu .. | .r .sub .. | .r .subu .. | .r .and .. | .r .or .. | .r .xor ..
  | .r .nor .. | .r .sltu .. | .i .addi .. | .i .addiu .. | .i .sltiu .. | .i .andi ..
  | .i .ori .. | .i .xori .. | .sh .. | .lw .. | .sw .. | .b .. | .bz .. | .j .. | .jal .. =>
      inferInstanceAs (Decidable False)

namespace SingleCycle

/-! ## One clock -/

section Step

variable {imem : BitVec 32 → BitVec 32} {s : Top} {x : Instr}

/-- The ALU compares right exactly if the operands are not among the wrong ones. -/
theorem slt_res_iff (a b : BitVec 32) :
    (aluSingleCycle a b SLT_OP).res = RFun.slt.eval a b ↔ ¬ signWrong a b := by
  rw [← (signed_comparison_iff a b).1]
  have heval : RFun.slt.eval a b = if a.toInt < b.toInt then 1 else 0 := by
    show (BitVec.ofBool (a.slt b)).setWidth 32 = _
    rw [BitVec.slt_eq_decide]
    by_cases hlt : a.toInt < b.toInt
    · rw [if_pos hlt, decide_eq_true hlt]
      rfl
    · rw [if_neg hlt, decide_eq_false hlt]
      rfl
  rw [heval]

/-- A comparison writes the registers as it should exactly if it comes out right, or goes
to register 0. -/
theorem clock_regFile_slt (h : Encodes (s.instr imem) x) (h0 : s.regFile 0 = 0)
    (hx : isSupported x = false) :
    (s.clock imem false).regFile = x.nextRegs (dataMemRead s.dmem) s.currPc s.regFile ↔
      ¬ x.Miscompares s.regFile := by
  have hregs := clock_regFile h h0
  rw [alu_eq h] at hregs
  generalize s.instr imem = w at h hregs
  cases h with
  | @r f =>
      obtain rfl : f = .slt := by simpa [isSupported] using hx
      refine (Eq.congr_left hregs).trans ((writeReg_inj_iff _ _ _ _).trans ?_)
      rw [Instr.Miscompares, not_and_or, not_not]
      exact or_congr_right (slt_res_iff _ _)
  | @i f =>
      obtain rfl : f = .slti := by simpa [isSupported] using hx
      refine (Eq.congr_left hregs).trans ((writeReg_inj_iff _ _ _ _).trans ?_)
      rw [Instr.Miscompares, not_and_or, not_not]
      exact or_congr_right (slt_res_iff _ _)
  | sh | lw | sw | b | bz | j | jal => cases hx

/-- What is supported does not compare. -/
theorem not_miscompares {regs : BitVec 5 → BitVec 32} (hx : isSupported x = true) :
    ¬ x.Miscompares regs := by
  intro hmis
  unfold Instr.Miscompares at hmis
  split at hmis
  next => exact absurd hx nofun
  next => exact absurd hx nofun
  next => exact hmis

/-- One clock does what the instruction says exactly if no comparison comes out wrong. -/
theorem clock_follows_iff (h : Encodes (s.instr imem) x) (h0 : s.regFile 0 = 0) :
    Follows singleCycleLayout x s.arch (s.clock imem false).arch ↔
      ¬ x.Miscompares s.regFile := by
  cases hx : isSupported x with
  | true => exact iff_of_true (clock_follows h hx h0) (not_miscompares hx)
  | false =>
      refine ⟨fun hf => (clock_regFile_slt h h0 hx).mp hf.regs, fun hright =>
        ⟨(clock_regFile_slt h h0 hx).mpr hright, ?_⟩⟩
      show dataMemWrite s.dmem (s.ctl imem).memWr (s.alu imem).res
        (s.regFile (rt (s.instr imem))) = _
      rw [ctl_eq h]
      cases x with
      | r | i => exact dataMemWriteAt_false _ _
      | sh | lw | sw | b | bz | j | jal => cases hx

end Step

/-! ## Whole runs -/

/-- The next cycle of the simulator executes a comparison that the processor has wrong. -/
def Miscompares (sim : Sim) : Prop :=
  ∃ x, decodeInstr (sim.memRead sim.current.pc) = some x ∧ x.Miscompares sim.current.regs

instance (sim : Sim) : Decidable (Miscompares sim) :=
  decidable_of_iff (∃ x ∈ decodeInstr (sim.memRead sim.current.pc),
    x.Miscompares sim.current.regs) Iff.rfl

/-- A program of instructions whose addresses stay inside the instruction memory. -/
structure InstrRun (sim : Sim) (k : Nat) : Prop where
  executes : ∀ i < k, ∃ x, Executes singleCycleLayout (fun _ => true) (cycles sim i) x
  inText : ∀ i ≤ k, (cycles sim i).current.pc < 0x1000

section Run

variable {imem : BitVec 32 → BitVec 32} {s : Top} {sim : Sim} {x : Instr} {k : Nat}

theorem miscompares_iff (hx : decodeInstr (sim.memRead sim.current.pc) = some x) :
    Miscompares sim ↔ x.Miscompares sim.current.regs := by
  unfold Miscompares
  rw [hx]
  exact ⟨fun ⟨y, hy, hmis⟩ => Option.some.inj hy ▸ hmis, fun hmis => ⟨x, rfl, hmis⟩⟩

/-- In lockstep, the clock does what the instruction says exactly if it does not
miscompare. -/
theorem follows_iff_of_lockstep {p : Instr → Bool}
    (h : Lockstep singleCycleLayout imem s.arch sim) (hx : Executes singleCycleLayout p sim x) :
    Follows singleCycleLayout x s.arch (s.clock imem false).arch ↔ ¬ Miscompares sim := by
  have hregs : s.regFile = sim.current.regs := h.regs
  rw [miscompares_iff hx.word, ← hregs]
  exact clock_follows_iff (h.encodes hx) (by rw [hregs, h.zero])

/-- The registers agree afterwards exactly if it does not. -/
theorem regFile_iff_of_lockstep {p : Instr → Bool}
    (h : Lockstep singleCycleLayout imem s.arch sim) (hx : Executes singleCycleLayout p sim x) :
    (s.clock imem false).regFile = (cycle sim).current.regs ↔ ¬ Miscompares sim := by
  have hpc : s.currPc = sim.current.pc := h.pc
  have hregs : s.regFile = sim.current.regs := h.regs
  constructor
  · intro heq hmis
    rw [miscompares_iff hx.word] at hmis
    have hslt : isSupported x = false := by
      rw [← Bool.not_eq_true]
      exact fun hsup => not_miscompares hsup hmis
    have hload : x.loaded sim.current.regs = none := by
      cases x with
      | lw => exact absurd hslt nofun
      | r | sh | i | sw | b | bz | j | jal => rfl
    refine (clock_regFile_slt (h.encodes hx) (by rw [hregs, h.zero]) hslt).mp ?_ (hregs ▸ hmis)
    rw [heq, cycle_eq h.next hx.word, hpc, hregs]
    refine Instr.nextRegs_congr fun addr haddr => ?_
    rw [hload] at haddr
    exact absurd haddr nofun
  · intro hright
    exact (h.effect hx ((follows_iff_of_lockstep h hx).mpr hright)).regs

/-- Up to the first comparison that comes out wrong. -/
theorem Boots.lockstep_of_right (hb : Boots imem s sim) (h : InstrRun sim k) (i : Nat)
    (hi : i ≤ k) (hright : ∀ j < i, ¬ Miscompares (cycles sim j)) :
    Lockstep singleCycleLayout imem (s.run imem i).arch (cycles sim i) := by
  induction i with
  | zero => exact hb.start
  | succ i ih =>
      have hlock := ih (by omega) fun j hj => hright j (by omega)
      obtain ⟨x, hx⟩ := h.executes i (by omega)
      exact clock_lockstep hlock hx (h.inText (i + 1) hi)
        ((follows_iff_of_lockstep hlock hx).mpr (hright i (Nat.lt_succ_self i)))

end Run

end SingleCycle

end SimpleCpu.Mips
