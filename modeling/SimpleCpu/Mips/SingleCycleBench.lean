import SimpleCpu.Mips.Comparisons
import SimpleCpu.Mips.Loader
import SimpleCpu.Mips.Probe

/-!
# The testbench of the single-cycle processor

At every falling edge out of reset the testbench runs the simulator for one instruction,
compares, and looks for the `SYSCALL` that ends a program.  The first edge comes before the
first clock.

* `test_running_iff`: the test goes on exactly as long as datapath and simulator agree on
  the program counter, the word and every register.
* `test_passed_iff`: it passes exactly if they agree up to the end of the program.
* `topTb_program`: a program in the files passes exactly if none of its signed comparisons
  comes out wrong.
-/

namespace SimpleCpu.Mips.SingleCycle

open SimpleCpu.CoSim SimpleCpu.Pipeline SimpleCpu.Mips.Isa SimpleCpu.Mips.Iss
open SimpleCpu.Mips.CoSim

/-! ## The testbench -/

/-- What the testbench taps. -/
def Top.tapped (imem : BitVec 32 → BitVec 32) (s : Top) : Tapped :=
  .ofDecode (s.dec imem) (s.ctl imem) s.currPc (s.instr imem) s.regFile (s.wrData imem)

def probe (imem : BitVec 32 → BitVec 32) : Probe Top where
  sample _ := true
  tapped := Top.tapped imem
  regs := Top.regFile

/-- The test after `n` clocks with `reset` low. -/
def test (imem : BitVec 32 → BitVec 32) (s : Top) (c : Checker) (n : Nat) :
    Outcome Checker Mismatch :=
  (probe imem).bench.after (fun t => s.run imem t) c n

/-- The condition of `TEST PASSED`. -/
def Top.endOfTest (imem : BitVec 32 → BitVec 32) (s : Top) : Bool :=
  s.instr imem == 0xc && s.regFile 2 == 0xa

/-- In clock `i` the datapath does what the simulator does in its `i`-th cycle, and that is
no `JALR` but one that names register 31. -/
structure SameAt (imem : BitVec 32 → BitVec 32) (s : Top) (sim : Sim) (i : Nat) : Prop where
  running : (cycles sim i).runBit = true
  pc : (s.run imem i).currPc = (cycles sim i).current.pc
  instr : (s.run imem i).instr imem = (cycles sim i).memRead (cycles sim i).current.pc
  named : Named ((s.run imem i).instr imem)
  regs : (s.run imem (i + 1)).regFile = (cycles sim (i + 1)).current.regs

/-- ..., and the program has not come to its end. -/
def GoesOn (imem : BitVec 32 → BitVec 32) (s : Top) (sim : Sim) (i : Nat) : Prop :=
  SameAt imem s sim i ∧ (s.run imem i).endOfTest imem = false

section Test

variable {imem : BitVec 32 → BitVec 32} {s : Top} {c : Checker} {n : Nat}

theorem observes : (probe imem).Observes fun t => s.run imem t where
  taps t _ := ⟨(s.run imem t).instr imem, (s.run imem t).ctl imem,
    { taps := rfl, rows := rowLaws_controlSingleCycle _, read := Or.inl rfl }⟩
  written _ _ := rfl
  kept _ hs := absurd hs nofun

theorem runsAt_iff {sim : Sim} {i : Nat} :
    (probe imem).RunsAt (fun t => s.run imem t) sim i ↔ SameAt imem s sim i := by
  have hbefore : (probe imem).before (fun t => s.run imem t) i = i :=
    Nat.count_iff_forall.mpr fun _ _ => rfl
  constructor
  · rintro ⟨⟨hpc, hinstr, hnamed, hregs⟩, hbit⟩
    rw [hbefore] at hpc hinstr hregs hbit
    exact ⟨hbit, hpc, hinstr, hnamed, hregs⟩
  · rintro ⟨hbit, hpc, hinstr, hnamed, hregs⟩
    refine ⟨⟨?_, ?_, hnamed, ?_⟩, ?_⟩ <;> rw [hbefore] <;> assumption

theorem goesOn_iff {sim : Sim} {i : Nat} :
    (probe imem).bench.GoesOn (fun t => s.run imem t)
        ((probe imem).RunsAt (fun t => s.run imem t) sim) (Top.endOfTest imem) i ↔
      GoesOn imem s sim i := by
  unfold GoesOn
  rw [← runsAt_iff]
  exact ⟨fun h => h rfl, fun h _ => h⟩

theorem test_running_iff (hready : c.Ready s.regFile) :
    (∃ c', test imem s c n = .running c') ↔ ∀ i < n, GoesOn imem s c.sim i := by
  refine (observes.decided.running_iff (Probe.inTest_zero hready)).trans ?_
  exact forall₂_congr fun i _ => goesOn_iff

theorem test_passed_iff (hready : c.Ready s.regFile) : test imem s c n = .passed ↔
    ∃ m < n, (∀ i < m, GoesOn imem s c.sim i) ∧
      SameAt imem s c.sim m ∧ (s.run imem m).endOfTest imem = true := by
  refine (observes.decided.passed_iff (Probe.inTest_zero hready)).trans ?_
  refine exists_congr fun m => and_congr_right fun _ => and_congr ?_ ?_
  · exact forall₂_congr fun i _ => goesOn_iff
  · rw [← runsAt_iff]
    exact and_iff_right rfl

end Test

/-! ## Programs -/

section Programs

variable {imem : BitVec 32 → BitVec 32} {s : Top} {sim : Sim} {k : Nat}

theorem InstrRun.runBit (h : InstrRun sim k) (hnext : sim.next = sim.current)
    (hbit : sim.runBit = true) (i : Nat) (hi : i ≤ k) :
    (cycles sim i).next = (cycles sim i).current ∧ (cycles sim i).runBit = true := by
  induction i with
  | zero => exact ⟨hnext, hbit⟩
  | succ i ih =>
      obtain ⟨hnext', hbit'⟩ := ih (by omega)
      obtain ⟨x, hx⟩ := h.executes i (by omega)
      rw [cycles, cycle_eq hnext' hx.word]
      exact ⟨rfl, hbit'⟩

/-- `top` and the simulator start with the same program, if not with the same text. -/
structure StartsWith (imem : BitVec 32 → BitVec 32) (s : Top) (sim : Sim) : Prop where
  boots : Boots imem s (withText imem sim)
  text : AgreesText singleCycleLayout imem sim
  runBit : sim.runBit = true

/-- Datapath and simulator between two instructions.  The simulator with the text of the
testbench is in lockstep with the datapath. -/
structure Level (imem : BitVec 32 → BitVec 32) (s : Top) (sim : Sim) (i : Nat) : Prop where
  same : SameText imem sim i
  lock : Lockstep singleCycleLayout imem (s.run imem i).arch (cycles (withText imem sim) i)
  runBit : (cycles sim i).runBit = true

namespace StartsWith

theorem next (hs : StartsWith imem s sim) : sim.next = sim.current :=
  hs.boots.start.next

theorem aligned (hs : StartsWith imem s sim) : sim.current.pc &&& 3 = 0 :=
  hs.boots.start.aligned

theorem sameText (hs : StartsWith imem s sim) (h : InstrRun sim k) {i : Nat} (hi : i ≤ k) :
    SameText imem sim i :=
  Mips.sameText hs.next hs.aligned hs.text h.executes i hi

/-- The simulator with the text of the testbench runs the same program. -/
theorem instrRun (hs : StartsWith imem s sim) (h : InstrRun sim k) :
    InstrRun (withText imem sim) k where
  executes i hi := by
    obtain ⟨x, hx⟩ := h.executes i hi
    exact ⟨x, (hs.sameText h (Nat.le_of_lt hi)).executes hs.text hx⟩
  inText i hi := by
    rw [← (hs.sameText h hi).mirrors.current_eq]
    exact h.inText i hi

/-- It makes the same comparisons. -/
theorem miscompares_iff (hs : StartsWith imem s sim) (h : InstrRun sim k) {i : Nat}
    (hi : i < k) :
    Miscompares (cycles (withText imem sim) i) ↔ Miscompares (cycles sim i) := by
  have hsame := hs.sameText h (Nat.le_of_lt hi)
  obtain ⟨x, hx⟩ := h.executes i hi
  rw [SingleCycle.miscompares_iff (hsame.executes hs.text hx).word,
    SingleCycle.miscompares_iff hx.word, hsame.mirrors.current_eq]

theorem level (hs : StartsWith imem s sim) (h : InstrRun sim k) {i : Nat} (hi : i ≤ k)
    (hright : ∀ j < i, ¬ Miscompares (cycles sim j)) : Level imem s sim i where
  same := hs.sameText h hi
  lock := hs.boots.lockstep_of_right (hs.instrRun h) i hi fun j hj hmis =>
    hright j hj ((hs.miscompares_iff h (by omega)).mp hmis)
  runBit := (h.runBit hs.next hs.runBit i hi).2

end StartsWith

namespace Level

variable {i : Nat}

theorem pc (h : Level imem s sim i) : (s.run imem i).currPc = (cycles sim i).current.pc := by
  rw [h.same.mirrors.current_eq]
  exact h.lock.pc

theorem regs (h : Level imem s sim i) : (s.run imem i).regFile = (cycles sim i).current.regs := by
  rw [h.same.mirrors.current_eq]
  exact h.lock.regs

theorem zero (h : Level imem s sim i) : (cycles sim i).current.regs 0 = 0 := by
  rw [h.same.mirrors.current_eq]
  exact h.lock.zero

/-- They have fetched the same word. -/
theorem instr (h : Level imem s sim i) (htext : AgreesText singleCycleLayout imem sim)
    (hpc : (cycles sim i).current.pc < 0x1000)
    (hword : (cycles sim i).memRead (cycles sim i).current.pc ≠ 0xefefefef) :
    (s.run imem i).instr imem = (cycles sim i).memRead (cycles sim i).current.pc := by
  rw [(h.same.fetch htext hpc hword).1, ← h.pc]
  rfl

end Level

theorem decodeInstr_ne_syscall {w : BitVec 32} {x : Instr} (h : decodeInstr w = some x) :
    w ≠ 0xc := by
  rintro rfl
  have hnone : decodeInstr 0xc = none := by decide
  rw [hnone] at h
  exact absurd h nofun

/-- The `SYSCALL` is behind the instructions. -/
theorem StartsWith.not_ends (hs : StartsWith imem s sim) (h : InstrRun sim k) {i : Nat}
    (hi : i < k) (hright : ∀ j < i, ¬ Miscompares (cycles sim j)) :
    (s.run imem i).endOfTest imem = false := by
  have hlevel := hs.level h (Nat.le_of_lt hi) hright
  obtain ⟨x, hx⟩ := h.executes i hi
  unfold Top.endOfTest
  rw [Bool.and_eq_false_iff, beq_eq_false_iff_ne,
    hlevel.instr hs.text hx.inText (decodeInstr_unloaded hx.word)]
  exact Or.inl (decodeInstr_ne_syscall hx.word)

/-- A clock that makes no wrong comparison is as it should be, and one that makes one is
not. -/
theorem StartsWith.goesOn_iff (hs : StartsWith imem s sim) (h : InstrRun sim k) {i : Nat}
    (hi : i < k) (hright : ∀ j < i, ¬ Miscompares (cycles sim j)) :
    GoesOn imem s sim i ↔ ¬ Miscompares (cycles sim i) := by
  have hlevel := hs.level h (Nat.le_of_lt hi) hright
  obtain ⟨x, hx⟩ := h.executes i hi
  have hword := hlevel.instr hs.text hx.inText (decodeInstr_unloaded hx.word)
  have hregs := regFile_iff_of_lockstep hlevel.lock (hlevel.same.executes hs.text hx)
  have hnext : (cycle (cycles (withText imem sim) i)).current = (cycle (cycles sim i)).current :=
    ((hs.sameText h hi).mirrors.current_eq).symm
  rw [hnext, hs.miscompares_iff h hi] at hregs
  rw [← hregs]
  refine ⟨fun hgoes => hgoes.1.regs, fun heq =>
    ⟨⟨hlevel.runBit, hlevel.pc, hword, ?_, heq⟩, hs.not_ends h hi hright⟩⟩
  rw [hword]
  exact named_of_decodeInstr hx.word

theorem StartsWith.forall_goesOn_iff (hs : StartsWith imem s sim) (h : InstrRun sim k) {n : Nat}
    (hn : n ≤ k) :
    (∀ i < n, GoesOn imem s sim i) ↔ ∀ i < n, ¬ Miscompares (cycles sim i) := by
  induction n with
  | zero => exact iff_of_true nofun nofun
  | succ n ih =>
      rw [Nat.forall_lt_succ_right, Nat.forall_lt_succ_right, ih (by omega)]
      exact and_congr_right fun hright => hs.goesOn_iff h (by omega) hright

/-- A `SYSCALL` writes no register. -/
theorem clock_regFile_syscall (h : s.instr imem = 0xc) :
    (s.clock imem false).regFile = s.regFile := by
  have hwr : ((s.ctl imem).regWr || (s.dec imem).useLinkReg) = false := by
    unfold Top.ctl Top.dec
    rw [h]
    decide
  exact if_neg (by rw [hwr]; exact nofun)

/-- The clock of the `SYSCALL`. -/
theorem StartsWith.sameAt_end (hs : StartsWith imem s sim) (h : InstrRun sim k)
    (hright : ∀ i < k, ¬ Miscompares (cycles sim i)) (hend : EndsAt sim k) :
    SameAt imem s sim k ∧ (s.run imem k).endOfTest imem = true := by
  have hlevel := hs.level h (Nat.le_refl k) hright
  have hinstr := hlevel.instr hs.text (h.inText k (Nat.le_refl k))
    (by rw [hend.word]; decide)
  have hword := hinstr.trans hend.word
  have hsim := cycle_regs_syscall hlevel.same.next hlevel.zero hend.word
  refine ⟨⟨hlevel.runBit, hlevel.pc, hinstr, ?_, ?_⟩, ?_⟩
  · rw [hword]
    decide
  · exact (clock_regFile_syscall hword).trans (hlevel.regs.trans hsim.symm)
  · have h2 : (s.run imem k).regFile 2 = 0xa := (congrFun hlevel.regs 2).trans hend.status
    unfold Top.endOfTest
    rw [hword, h2]
    decide

end Programs

/-! ## The program in the files -/

/-- `top` when `reset` goes low, with what `init_dmem` and `boot_code` have written. -/
def Top.booted (dmem : BitVec 32 → BitVec 32) : Top where
  currPc := 0
  regFile := fun _ => 0
  dmem := initDmem 0x100000 dmem

/-- `top_tb` on the program in the files, after `n` falling edges out of reset.  What the
memories held before is `imem` and `dmem`. -/
def topTb (imem dmem : BitVec 32 → BitVec 32) (words : List (BitVec 32 × BitVec 32)) (n : Nat) :
    Outcome Checker Mismatch :=
  test (initImem 1024 imem words) (Top.booted dmem) (init words) n

section Files

variable {words : List (BitVec 32 × BitVec 32)}

theorem covers_singleCycle : Covers singleCycleLayout 0x100000 := by
  intro addr hlow hhigh
  have hlow' : 0x2000 ≤ addr.toNat := hlow
  have hhigh' : addr.toNat < 0x102000 := hhigh
  show (dataMemIndex 0x1000 addr).toNat < 0x100000
  rw [dataMemIndex_toNat, BitVec.toNat_sub]
  simp
  omega

theorem startsWith_files (hl : Loadable singleCycleLayout words)
    (imem dmem : BitVec 32 → BitVec 32) :
    StartsWith (initImem 1024 imem words) (Top.booted dmem) (init words).sim where
  boots := ⟨rfl, hl.lockstep covers_singleCycle _ dmem⟩
  text := hl.agreesText
  runBit := init_runBit words

/-- For any files, the test goes on exactly as long as datapath and simulator agree on the
program counter, the word and all registers, and the program has not ended; and it passes
exactly if they agree up to the end of the program. -/
theorem topTb_iff (imem dmem : BitVec 32 → BitVec 32) (words : List (BitVec 32 × BitVec 32))
    (n : Nat) :
    ((∃ c, topTb imem dmem words n = .running c) ↔
      ∀ i < n, GoesOn (initImem 1024 imem words) (Top.booted dmem) (init words).sim i) ∧
    (topTb imem dmem words n = .passed ↔
      ∃ m < n, (∀ i < m, GoesOn (initImem 1024 imem words) (Top.booted dmem) (init words).sim i) ∧
        SameAt (initImem 1024 imem words) (Top.booted dmem) (init words).sim m ∧
        ((Top.booted dmem).run (initImem 1024 imem words) m).endOfTest
          (initImem 1024 imem words) = true) :=
  have hready : (init words).Ready (Top.booted dmem).regFile := init_ready words
  ⟨test_running_iff hready, test_passed_iff hready⟩

/-- The test of a program in the files goes on through its instructions, and passes at its
end, exactly if the processor has none of its signed comparisons wrong; what the memories held
before does not matter. -/
theorem topTb_program (hl : Loadable singleCycleLayout words) {k : Nat}
    (h : InstrRun (init words).sim k) (imem dmem : BitVec 32 → BitVec 32) :
    ((∃ c, topTb imem dmem words k = .running c) ↔
      ∀ i < k, ¬ Miscompares (cycles (init words).sim i)) ∧
    (EndsAt (init words).sim k →
      (topTb imem dmem words (k + 1) = .passed ↔
        ∀ i < k, ¬ Miscompares (cycles (init words).sim i))) := by
  have hs := startsWith_files hl imem dmem
  have hready : (init words).Ready (Top.booted dmem).regFile := init_ready words
  have hall := hs.forall_goesOn_iff h (Nat.le_refl k)
  refine ⟨(test_running_iff hready).trans hall, fun hend => (test_passed_iff hready).trans ?_⟩
  constructor
  · rintro ⟨m, hm, hgoes, -, hended⟩
    have hright := (hs.forall_goesOn_iff h (by omega)).mp hgoes
    by_cases hmk : m < k
    · rw [hs.not_ends h hmk hright] at hended
      exact absurd hended nofun
    · obtain rfl : m = k := by omega
      exact hright
  · intro hright
    exact ⟨k, Nat.lt_succ_self k, hall.mpr hright, hs.sameAt_end h hright hend⟩

/-- `ADDI r2, r0, 10`, `SLTI r1, r2, 11` and `SYSCALL`. -/
theorem topTb_program_slti :
    topTb (fun _ => 0) (fun _ => 0) [(0, 0x2002000A), (4, 0x2841000B), (8, 0xC)] 3 = .passed := by
  refine ((topTb_program (k := 2) ?_ ?_ (fun _ => 0) fun _ => 0).2 ?_).mpr ?_
  · exact ⟨by decide, by simp, by simp, by simp [singleCycleLayout]⟩
  · refine ⟨fun i hi => ?_, fun i hi => ?_⟩
    · interval_cases i
      · exact ⟨.i .addi 2 0 10, executes_of_check (by decide +kernel)⟩
      · exact ⟨.i .slti 1 2 11, executes_of_check (by decide +kernel)⟩
    · interval_cases i <;> decide +kernel
  · exact ⟨by decide +kernel, by decide +kernel⟩
  · intro i hi
    interval_cases i <;> decide +kernel

end Files

end SimpleCpu.Mips.SingleCycle
