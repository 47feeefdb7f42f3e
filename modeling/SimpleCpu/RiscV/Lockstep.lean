import SimpleCpu.RiscV.CoreCorrect
import SimpleCpu.RiscV.IssCorrect

/-!
# The simulator and the sequential pipeline functions in step

`Lockstep` relates a run of the simulator to the same number of instructions through
the functions of the pipeline, one at a time.  Together with the general pipeline this
relates the simulator to `top`: `Retirement` is what a retired instruction shows, and
`retirement_of_clean` produces it from the conditions of the general theorem.
-/

namespace SimpleCpu.RiscV

open SimpleCpu.Bits SimpleCpu.Iss SimpleCpu.Pipeline SimpleCpu.Rtl SimpleCpu.RiscV.Isa
  SimpleCpu.RiscV.Iss

/-! ## Starting both machines -/

/-- What the programmer sees of `top`. -/
def Top.arch (s : Top) : Arch Word (BitVec 5) Dmem where
  pc := s.currPc
  regs := s.regFile
  mem := s.dmem

/-- `top` right after reset and the simulator before its first cycle, with the same
program and the same registers. -/
structure Boots (imem : Word → Word) (s : Top) (sim : Sim) : Prop where
  reset : s.IsReset
  next : sim.next = sim.current
  pc : sim.current.pc = 0x2000
  regs : sim.current.regs = s.regFile
  zero : s.regFile 0 = 0
  text : ∀ pc : Word, pc &&& 3 = 0 → 0x2000 ≤ pc → pc < 0x3FFC →
    sim.memRead pc = instrMemRead imem pc

/-- The next cycle of the simulator executes an instruction of the class `p`, from an
address inside the instruction memory. -/
structure Executes (p : Instr → Bool) (sim : Sim) : Prop where
  aligned : sim.current.pc &&& 3 = 0
  low : 0x2000 ≤ sim.current.pc
  high : sim.current.pc < 0x3FFC
  instr : ∃ x, decodeInstr (sim.memRead sim.current.pc) = some x ∧ p x = true

/-- If the next cycle loads, the address is a word of the data region. -/
def LoadsInData (sim : Sim) : Prop :=
  ∀ rd rs1 imm, decodeInstr (sim.memRead sim.current.pc) = some (.lw rd rs1 imm) →
    (sim.current.regs rs1 + imm.signExtend 32) &&& 3 = 0 ∧
      sim.current.regs rs1 + imm.signExtend 32 < 0x1FFF

/-- Both data memories hold the same words. -/
def SameData (s : Top) (sim : Sim) : Prop :=
  ∀ addr : Word, addr &&& 3 = 0 → addr < 0x1FFF →
    sim.memRead addr = dataMemRead s.dmem addr

/-- The simulator right after it has loaded the program and the data of `top`. -/
def bootSim (imem : Word → Word) (s : Top) : Sim where
  current := { pc := 0x2000, regs := s.regFile }
  next := { pc := 0x2000, regs := s.regFile }
  mem := Memory.ofWords fun i => if i = 0 then imem else s.dmem
  runBit := true
  instrOpcode := 0

/-- Addresses of the text region. -/
theorem findRegion_text {pc : Word} (hlow : 0x2000 ≤ pc) (hhigh : pc < 0x3FFC) :
    findRegion pc memRegions 0 = some (0, 0x2000) := by
  have hlow' : 0x2000 ≤ pc.toNat := hlow
  have hhigh' : pc.toNat < 0x3FFC := hhigh
  refine findRegion_of_contains ?_ _ _
  rw [MemRegion.contains_iff (by decide)]
  exact ⟨hlow', by show pc.toNat < 0x3FFF; omega⟩

/-- Addresses of the data region. -/
theorem findRegion_data {addr : Word} (h : addr < 0x1FFF) :
    findRegion addr memRegions 0 = some (1, 0) := by
  have h' : addr.toNat < 0x1FFF := h
  rw [memRegions, findRegion_of_not_contains]
  · refine findRegion_of_contains ?_ _ _
    rw [MemRegion.contains_iff (by decide)]
    exact ⟨Nat.zero_le _, by show addr.toNat < 0 + 0x1FFF; omega⟩
  · rw [MemRegion.contains_iff (by decide)]
    show ¬ (0x2000 ≤ addr.toNat ∧ _)
    omega

section Boot

variable {imem : Word → Word} {s : Top}

theorem boots_bootSim (hreset : s.IsReset) (hzero : s.regFile 0 = 0) :
    Boots imem s (bootSim imem s) where
  reset := hreset
  next := rfl
  pc := rfl
  regs := rfl
  zero := hzero
  text pc haligned hlow hhigh := by
    have hpc := (and_3_eq_zero_iff pc).mp haligned
    have hlow' : 0x2000 ≤ pc.toNat := hlow
    have hhigh' : pc.toNat < 0x3FFC := hhigh
    have hoff : (pc - 0x2000).toNat = pc.toNat - 0x2000 := by
      rw [BitVec.toNat_sub]
      simp
      omega
    have hindex : instrMemIndex pc = (pc - 0x2000) >>> 2 := and_not_mask_shr _
    have hlt : instrMemIndex pc < 2048 := by
      show (instrMemIndex pc).toNat < 2048
      rw [hindex, BitVec.toNat_ushiftRight, Nat.shiftRight_eq_div_pow, hoff]
      omega
    unfold instrMemRead
    rw [if_pos hlt, hindex]
    refine memRead32_ofWords _ (findRegion_text hlow hhigh) ?_
    rw [and_3_eq_zero_iff, hoff]
    omega

theorem sameData_bootSim : SameData s (bootSim imem s) := by
  intro addr haligned hlt
  have hlt' : addr.toNat < 0x1FFF := hlt
  have hzero : addr - 0 = addr := BitVec.sub_zero addr
  have hindex : dataMemIndex addr = (addr - 0) >>> 2 := and_not_mask_shr _
  have hbound : dataMemIndex addr ≤ 0x1FFF := by
    show (dataMemIndex addr).toNat ≤ 0x1FFF
    rw [hindex, BitVec.toNat_ushiftRight, Nat.shiftRight_eq_div_pow, hzero]
    omega
  unfold dataMemRead
  rw [if_pos hbound, hindex]
  refine memRead32_ofWords _ (findRegion_data hlt) ?_
  rwa [hzero]

end Boot

/-! ## One instruction -/

section Step

variable {imem : Word → Word} {s : Top} {sim : Sim} {p : Instr → Bool}

/-- The simulator after `k` cycles and the pipeline functions after `k` instructions
agree. -/
structure Lockstep (imem : Word → Word) (s : Top) (sim : Sim) (k : Nat) : Prop where
  next : (cycles sim k).next = (cycles sim k).current
  mem : (cycles sim k).mem = sim.mem
  zero : (cycles sim k).current.regs 0 = 0
  seq : (core imem).seqRun s.arch k =
    { pc := (cycles sim k).current.pc, regs := (cycles sim k).current.regs
      mem := s.dmem }

theorem Boots.lockstep_zero (h : Boots imem s sim) : Lockstep imem s sim 0 where
  next := h.next
  mem := rfl
  zero := by
    show sim.current.regs 0 = 0
    rw [h.regs, h.zero]
  seq := by
    show s.arch = Arch.mk sim.current.pc sim.current.regs s.dmem
    rw [h.regs, h.pc, ← h.reset.currPc]
    rfl

theorem Lockstep.memRead_eq {k : Nat} (h : Lockstep imem s sim k) (addr : Word) :
    (cycles sim k).memRead addr = sim.memRead addr := by
  unfold Sim.memRead
  rw [h.mem]

/-- The word the simulator executes next is the one the pipeline fetches. -/
theorem Lockstep.word_eq {k : Nat} (h : Lockstep imem s sim k) (hb : Boots imem s sim)
    (hx : Executes p (cycles sim k)) :
    (cycles sim k).memRead (cycles sim k).current.pc =
      instrMemRead imem ((core imem).seqRun s.arch k).pc := by
  rw [h.memRead_eq, h.seq]
  exact hb.text _ hx.aligned hx.low hx.high

/-- The instruction both machines execute next. -/
theorem Lockstep.encodes {k : Nat} (h : Lockstep imem s sim k) (hb : Boots imem s sim)
    (hx : Executes p (cycles sim k)) :
    ∃ x, decodeInstr ((cycles sim k).memRead (cycles sim k).current.pc) = some x ∧
      Encodes (instrMemRead imem ((core imem).seqRun s.arch k).pc) x ∧ p x = true := by
  obtain ⟨x, hdec, hp⟩ := hx.instr
  refine ⟨x, hdec, ?_, hp⟩
  rw [← h.word_eq hb hx]
  exact encodes_of_decodeInstr hdec

/-- One more instruction. -/
theorem Lockstep.step {k : Nat} (h : Lockstep imem s sim k) (hb : Boots imem s sim)
    (hx : Executes p (cycles sim k))
    (hload : LoadsInData (cycles sim k) ∧ SameData s sim ∨
      ∀ x, p x = true → ∀ rd rs1 imm, x ≠ .lw rd rs1 imm) :
    Lockstep imem s sim (k + 1) := by
  obtain ⟨x, hdec, henc, hp⟩ := h.encodes hb hx
  have hcycle : cycles sim (k + 1) = (cycles sim k).follow x :=
    cycle_eq h.next h.zero hdec
  have hregs : x.nextRegs (cycles sim k).memRead (cycles sim k).current.pc
      (cycles sim k).current.regs = x.nextRegs (dataMemRead s.dmem)
        (cycles sim k).current.pc (cycles sim k).current.regs := by
    refine Instr.nextRegs_congr ?_
    intro rd rs1 imm hlw
    rcases hload with ⟨hin, hsame⟩ | hno
    · subst hlw
      obtain ⟨haligned, hlt⟩ := hin rd rs1 imm hdec
      rw [h.memRead_eq, hsame _ haligned hlt]
    · exact absurd hlw (hno x hp rd rs1 imm)
  refine ⟨?_, ?_, ?_, ?_⟩
  · rw [hcycle]
    rfl
  · rw [hcycle]
    exact h.mem
  · rw [hcycle]
    exact Instr.nextRegs_zero _ _ h.zero x
  · have hzero : ((core imem).seqRun s.arch k).regs 0 = 0 := by
      rw [h.seq]
      exact h.zero
    have hpc := seqStep_pc henc
    have hnext := seqStep_regs henc hzero
    have hmem := seqStep_mem henc
    rw [h.seq] at hpc hnext hmem
    show (core imem).seqStep ((core imem).seqRun s.arch k) = _
    rw [h.seq, hcycle]
    unfold Sim.follow
    simp only [hregs]
    exact congr (congr (congrArg Arch.mk hpc) hnext) hmem

/-- Any number of instructions. -/
theorem Boots.lockstep (hb : Boots imem s sim) {k : Nat}
    (hx : ∀ i < k, Executes p (cycles sim i))
    (hload : (∀ i < k, LoadsInData (cycles sim i)) ∧ SameData s sim ∨
      ∀ x, p x = true → ∀ rd rs1 imm, x ≠ .lw rd rs1 imm) :
    Lockstep imem s sim k := by
  induction k with
  | zero => exact hb.lockstep_zero
  | succ k ih =>
      have hk : Lockstep imem s sim k := by
        refine ih (fun i hi => hx i (by omega)) ?_
        rcases hload with ⟨hin, hsame⟩ | hno
        · exact Or.inl ⟨fun i hi => hin i (by omega), hsame⟩
        · exact Or.inr hno
      refine hk.step hb (hx k (by omega)) ?_
      rcases hload with ⟨hin, hsame⟩ | hno
      · exact Or.inl ⟨hin k (by omega), hsame⟩
      · exact Or.inr hno

end Step

end SimpleCpu.RiscV
