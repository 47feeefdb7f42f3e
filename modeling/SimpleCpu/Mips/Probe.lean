import SimpleCpu.Mips.CoSim
import SimpleCpu.Mips.IssMirror

/-!
# MIPS datapaths under test

The testbenches of the MIPS datapaths differ in the clocks they sample and in where they
tap the datapath.  What they do with it is the same: run the simulator for one instruction,
compare, and look for the `SYSCALL` that ends a program.

* `Observes`: what is tapped is what the datapath does to its registers.
* `observes_decided`: then a test goes on exactly as long as datapath and simulator agree
  on the program counter, the word and every register.
-/

namespace SimpleCpu.Mips.CoSim

open SimpleCpu.CoSim SimpleCpu.Mips.Isa SimpleCpu.Mips.Iss

/-- The condition of `TEST PASSED`. -/
def Tapped.endOfTest (x : Tapped) : Bool := x.instr == 0xc && x.read 2 == 0xa

/-- What a testbench sees of a datapath: the clocks it samples, what it taps in them, and
the register file. -/
structure Probe (D : Type) where
  sample : D → Bool
  tapped : D → Tapped
  regs : D → BitVec 5 → BitVec 32

namespace Probe

variable {D : Type} (P : Probe D) (d : Nat → D) (sim : Sim)

def bench : Bench D Checker Mismatch where
  sample := P.sample
  advance := Checker.run
  compare x c := (P.tapped x).compare c
  finish x _ := (P.tapped x).endOfTest

/-- How many clocks have been sampled before clock `t`. -/
def before (t : Nat) : Nat := P.bench.sampledBefore d t

/-- The registers change as the taps say, and only in clocks that are sampled. -/
structure Observes : Prop where
  taps : ∀ t, P.sample (d t) = true → ∃ w ctl, Taps w ctl (P.regs (d t)) (P.tapped (d t))
  written : ∀ t, P.sample (d t) = true →
    P.regs (d (t + 1)) = (P.tapped (d t)).writes (P.regs (d t))
  kept : ∀ t, P.sample (d t) = false → P.regs (d (t + 1)) = P.regs (d t)

/-- The datapath does in clock `t` what the simulator does in the cycle of that number, and
that is no `JALR` but one that names register 31. -/
structure SameAt (t : Nat) : Prop where
  pc : (P.tapped (d t)).pc = (cycles sim (P.before d t)).current.pc
  instr : (P.tapped (d t)).instr =
    (cycles sim (P.before d t)).memRead (cycles sim (P.before d t)).current.pc
  named : Named (P.tapped (d t)).instr
  regs : P.regs (d (t + 1)) = (cycles sim (P.before d t + 1)).current.regs

/-- And `run (1)` does not exit. -/
structure RunsAt (t : Nat) : Prop extends P.SameAt d sim t where
  runBit : (cycles sim (P.before d t)).runBit = true

/-- The simulator at clock `t` of a test that goes on. -/
structure InTest (t : Nat) (c : Checker) : Prop where
  sim : c.sim = cycles sim (P.before d t)
  ready : c.Ready (P.regs (d t))

variable {P d sim} {t : Nat} {c c' : Checker}

theorem before_succ_of_sample (hs : P.sample (d t) = true) :
    P.before d (t + 1) = P.before d t + 1 := by
  unfold before
  rw [Bench.sampledBefore_succ, show P.bench.sample (d t) = true from hs]
  rfl

theorem before_succ_of_not_sample (hs : P.sample (d t) = false) :
    P.before d (t + 1) = P.before d t := by
  unfold before
  rw [Bench.sampledBefore_succ, show P.bench.sample (d t) = false from hs]
  rfl

/-- The comparison of a clock that starts from the simulator's registers. -/
theorem Observes.agrees_iff (h : P.Observes d) (hs : P.sample (d t) = true)
    (hin : P.InTest d sim t c) :
    P.bench.Agrees (d t) c c' ↔ P.RunsAt d sim t ∧ c' = c.cycle.agreed := by
  obtain ⟨w, ctl, htaps⟩ := h.taps t hs
  have hwritten := h.written t hs
  have hsame : c.Same (P.tapped (d t)) ((P.tapped (d t)).writes (P.regs (d t))) ↔
      P.SameAt d sim t := by
    rw [← hwritten]
    have hsim := hin.sim
    constructor
    · rintro ⟨hpc, hinstr, hnamed, hregs⟩
      rw [hsim] at hpc hinstr hregs
      exact ⟨hpc, hinstr, hnamed, hregs⟩
    · rintro ⟨hpc, hinstr, hnamed, hregs⟩
      rw [← hsim] at hpc hinstr
      refine ⟨hpc, hinstr, hnamed, ?_⟩
      rw [hsim]
      exact hregs
  constructor
  · rintro ⟨c₁, hrun, hcmp⟩
    obtain ⟨hbit, rfl⟩ := Checker.run_eq_some_iff.mp hrun
    obtain ⟨hc, rfl⟩ := (htaps.compare_ready_iff hin.ready).mp hcmp
    rw [hin.sim] at hbit
    exact ⟨⟨hsame.mp hc, hbit⟩, rfl⟩
  · rintro ⟨⟨hc, hbit⟩, rfl⟩
    rw [← hin.sim] at hbit
    exact ⟨c.cycle, Checker.run_eq_some_iff.mpr ⟨hbit, rfl⟩,
      (htaps.compare_ready_iff hin.ready).mpr ⟨hsame.mpr hc, rfl⟩⟩

theorem InTest.next (hs : P.sample (d t) = true) (hin : P.InTest d sim t c)
    (hsame : P.SameAt d sim t) : P.InTest d sim (t + 1) c.cycle.agreed where
  sim := by
    rw [before_succ_of_sample hs]
    exact congrArg Iss.cycle hin.sim
  ready := hin.ready.next_ready (by rw [hin.sim]; exact hsame.regs)

/-- The result of every clock can be read off datapath and simulator. -/
theorem Observes.decided (h : P.Observes d) :
    P.bench.Decided d (P.InTest d sim) (P.RunsAt d sim) fun x => (P.tapped x).endOfTest where
  other t c hs hin := by
    refine ⟨?_, ?_⟩
    · rw [before_succ_of_not_sample hs]
      exact hin.sim
    · rw [h.kept t hs]
      exact hin.ready
  agrees t c hs hin hgood := ⟨_, (h.agrees_iff hs hin).mpr ⟨hgood, rfl⟩⟩
  good t c c' hs hin hagrees := by
    obtain ⟨hgood, rfl⟩ := (h.agrees_iff hs hin).mp hagrees
    exact ⟨hgood, hin.next hs hgood.toSameAt⟩
  finish _ _ := rfl

/-- A test starts from the simulator's registers. -/
theorem inTest_zero (h : c.Ready (P.regs (d 0))) : P.InTest d c.sim 0 c := ⟨rfl, h⟩

end Probe

/-! ## Programs in files -/

theorem init_ready (words : List (BitVec 32 × BitVec 32)) : (init words).Ready fun _ => 0 := by
  have hcur : ∀ {P : Sim → Prop}, (∀ m, P (initMemory.withMem m)) → P (init words).sim := by
    intro P h
    show P (loadProgram initMemory words)
    rw [loadProgram_withMem]
    exact h _
  exact
    { next := hcur (P := fun s => s.next = s.current) fun m => rfl
      zero := hcur (P := fun s => s.current.regs 0 = 0) fun m => rfl
      prevPc := hcur (P := fun s => 0 = s.current.pc) fun m => rfl
      regs := hcur (P := fun s => (fun _ => 0) = s.current.regs) fun m => rfl }

theorem init_runBit (words : List (BitVec 32 × BitVec 32)) : (init words).sim.runBit = true := by
  show (loadProgram initMemory words).runBit = true
  rw [loadProgram_withMem]
  rfl

/-- The simulator is at the `SYSCALL` that ends a program. -/
structure EndsAt (sim : Sim) (k : Nat) : Prop where
  word : (cycles sim k).memRead (cycles sim k).current.pc = 0xc
  status : (cycles sim k).current.regs 2 = 0xa

end SimpleCpu.Mips.CoSim
