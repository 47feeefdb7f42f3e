import SimpleCpu.Mips.Loader
import SimpleCpu.Mips.Probe
import SimpleCpu.Mips.Programs

/-!
# The testbench of the pipeline

The testbench carries the fields of an instruction beside the pipeline, in registers that
are never flushed.  At every rising edge with `instr_retired` it runs the simulator for one
instruction and compares.

* `observes`: what it has in the write-back stage then belongs to the instruction that is
  retired, and nothing else changes the register file.
* `topTb_iff`: the test is exact, for any program and any predictor.
* `topTb_suits`: programs that suit the pipeline pass.
-/

namespace SimpleCpu.Mips.PipelineBench

open SimpleCpu.CoSim SimpleCpu.Rtl SimpleCpu.Pipeline SimpleCpu.Mips.Isa SimpleCpu.Mips.Iss
open SimpleCpu.Mips.CoSim

/-! ## The testbench -/

/-- What the testbench keeps of a stage beside address and word. -/
structure Fields where
  isRType : Bool
  isIType : Bool
  isJType : Bool
  rs : BitVec 5
  rt : BitVec 5
  rd : BitVec 5

/-- The signals tapped from the issue stage. -/
def Fields.ofInstr (instr : Word) : Fields :=
  let d := decode instr
  let c := control d.op d.funct
  { isRType := d.isRType, isIType := d.isIType, isJType := d.isJType
    rs := d.readReg1 c
    rt := if d.useLinkReg then 0x1F else d.rt
    rd := d.writeReg c }

/-- `top_tb`, between two rising edges. -/
structure TopTb where
  t1 : Top
  ex : Fields
  mem : Fields
  wb : Fields

namespace TopTb

variable (imem : Word → Word) (x : TopTb)

/-- One clock with `reset` low. -/
def clock : TopTb where
  t1 := x.t1.clock imem false
  ex := .ofInstr x.t1.iss.instr
  mem := x.ex
  wb := x.mem

def run : Nat → TopTb
  | 0 => x
  | t + 1 => (run t).clock imem

/-- The signals tapped from the write-back stage. -/
def tapped : Tapped where
  isRType := x.wb.isRType
  isIType := x.wb.isIType
  isJType := x.wb.isJType
  pc := x.t1.tb.pcWb
  instr := x.t1.tb.instrWb
  rd := x.wb.rd
  rs := x.wb.rs
  rt := x.wb.rt
  read := x.t1.regFileNext
  regWr := x.t1.wb.regWr
  useLinkReg := x.t1.wb.useLinkReg
  wrData := x.t1.wb.wrData

theorem run_t1 (t : Nat) : (x.run imem t).t1 = x.t1.run imem t := by
  induction t with
  | zero => rfl
  | succ t ih => exact congrArg (Top.clock imem false) ih

end TopTb

def probe : Probe TopTb where
  sample x := x.t1.wb.instrRetired
  tapped := TopTb.tapped
  regs x := x.t1.regFile

/-- The test after `n` clocks with `reset` low. -/
def test (imem : Word → Word) (x : TopTb) (c : Checker) (n : Nat) : Outcome Checker Mismatch :=
  probe.bench.after (fun t => x.run imem t) c n

/-! ## What the stages carry -/

/-- A stage with the fields of its word, if it is valid, or that writes at most register
0. -/
structure Carries (valid regWr useLinkReg : Bool) (rd : BitVec 5) (f : Fields) (w : Word) :
    Prop where
  full : valid = true → ¬ IsNop w ∧ regWr = (control (op w) (funct w)).regWr ∧
    useLinkReg = (decode w).useLinkReg ∧ rd = f.rd ∧ f = .ofInstr w
  empty : valid = false → useLinkReg = false ∧ (regWr = true → rd = 0)

/-- All stages. -/
structure Carried (x : TopTb) : Prop where
  shadows : x.t1.Shadows
  ex : Carries x.t1.ex.valid x.t1.ex.regWr x.t1.ex.useLinkReg x.t1.ex.rd x.ex x.t1.tb.instrEx
  mem : Carries x.t1.mem.valid x.t1.mem.regWr x.t1.mem.useLinkReg x.t1.mem.rd x.mem
    x.t1.tb.instrMem
  wb : Carries x.t1.wb.instrRetired x.t1.wb.regWr x.t1.wb.useLinkReg x.t1.wb.rd x.wb
    x.t1.tb.instrWb
  zero : x.t1.regFile 0 = 0

section Carried

variable {imem : Word → Word} {x : TopTb}

theorem carries_reset (f : Fields) (w : Word) : Carries false false false 0 f w where
  full hv := absurd hv Bool.false_ne_true
  empty _ := ⟨rfl, fun _ => rfl⟩

theorem carried_of_isReset (h : x.t1.IsReset) (hzero : x.t1.regFile 0 = 0) : Carried x where
  shadows := h.shadows
  ex := by
    rw [h.ex]
    exact carries_reset _ _
  mem := by
    rw [h.mem]
    exact carries_reset _ _
  wb := by
    rw [h.wb]
    exact carries_reset _ _
  zero := hzero

/-- The issue stage, with the word that it decodes. -/
theorem carries_issueStage (iss : IssPipeReg) :
    Carries (issueStage false iss).valid (issueStage false iss).regWr
      (issueStage false iss).useLinkReg (issueStage false iss).rd (.ofInstr iss.instr)
      iss.instr where
  full hv := ⟨(issueStage_valid_iff iss).mp hv, rfl, rfl, rfl, rfl⟩
  empty hv := by
    have hnop : IsNop iss.instr := by
      by_contra hno
      exact absurd (hv.symm.trans ((issueStage_valid_iff iss).mpr hno)) Bool.false_ne_true
    obtain ⟨hop, hfn, hsh, hrt, hrd⟩ := hnop
    have hlink : (decode iss.instr).useLinkReg = false := by
      have hR : (decode iss.instr).isRType = false := by
        show (op iss.instr == 0 && !(funct iss.instr == 0 && shamt iss.instr == 0 &&
          rt iss.instr == 0 && rd iss.instr == 0)) = false
        rw [hop, hfn, hsh, hrt, hrd]
        rfl
      show ((op iss.instr == Defines.BVAR && (rt iss.instr == Defines.BLTZAL ||
        rt iss.instr == Defines.BGEZAL)) || ((decode iss.instr).isRType &&
        funct iss.instr == Defines.JALR) || ((op iss.instr == Defines.J ||
        op iss.instr == Defines.JAL) && op iss.instr == Defines.JAL)) = false
      rw [hR, hop]
      rfl
    refine ⟨hlink, fun _ => ?_⟩
    show (decode iss.instr).writeReg _ = 0
    unfold Decode.writeReg
    rw [hlink, if_neg Bool.false_ne_true]
    split
    next => exact hrd
    next => exact hrt

theorem Carried.clock (h : Carried x) : Carried (x.clock imem) where
  shadows := h.shadows.clock
  ex := by
    show Carries (x.t1.clock imem false).ex.valid (x.t1.clock imem false).ex.regWr
      (x.t1.clock imem false).ex.useLinkReg (x.t1.clock imem false).ex.rd
      (.ofInstr x.t1.iss.instr) x.t1.tb.instrIss
    cases hflush : x.t1.flushEx || x.t1.flushIncorrPredEx with
    | true =>
        have hex : (x.t1.clock imem false).ex = {} := if_pos (by rw [Bool.false_or, hflush])
        rw [hex]
        exact carries_reset _ _
    | false =>
        rw [clock_ex hflush]
        cases hv : (issueStage false x.t1.iss).valid with
        | true =>
            have hcarries := carries_issueStage x.t1.iss
            rw [hv] at hcarries
            rw [← (h.shadows.fetchedFrom hv).instr]
            exact hcarries
        | false =>
            exact
              { full := fun hv' => absurd hv' Bool.false_ne_true
                empty := fun _ => (carries_issueStage x.t1.iss).empty hv }
  mem := h.ex
  wb := h.mem
  zero := by
    show x.t1.regFileNext 0 = 0
    unfold Top.regFileNext
    split
    next =>
      rw [Function.update_apply]
      split
      next h0 =>
        have hlink : x.t1.wb.useLinkReg = false := by
          cases hv : x.t1.wb.instrRetired with
          | false => exact (h.wb.empty hv).1
          | true =>
              obtain ⟨-, -, hl, hrd, hf⟩ := h.wb.full hv
              by_contra hne
              rw [hl, Bool.not_eq_false] at hne
              have h31 : (Fields.ofInstr x.t1.tb.instrWb).rd = 31 := if_pos hne
              rw [hrd, hf, h31] at h0
              exact absurd h0 (by decide)
        unfold WbPipeReg.wrData wrDataRf
        rw [hlink, ← h0]
        rfl
      next => exact h.zero
    next => exact h.zero

theorem Carried.run (h : Carried x) (t : Nat) : Carried (x.run imem t) := by
  induction t with
  | zero => exact h
  | succ t ih => exact ih.clock

/-- A word that is not all zeros is decoded as the single-cycle processor does. -/
theorem decode_eq {w : Word} (h : ¬ IsNop w) : decode w = decodeSingleCycle w := by
  have hR : (op w == 0 && !(funct w == 0 && shamt w == 0 && rt w == 0 && rd w == 0)) =
      (op w == 0) := by
    rw [Bool.and_eq_left_iff_imp, beq_iff_eq, Bool.not_eq_true', Bool.eq_false_iff]
    intro hop hfields
    simp only [Bool.and_eq_true, beq_iff_eq] at hfields
    obtain ⟨⟨⟨hfn, hsh⟩, hrt⟩, hrd⟩ := hfields
    exact h ⟨hop, hfn, hsh, hrt, hrd⟩
  exact congrArg (decodeFields w) hR

/-- The write port serves what is tapped. -/
theorem Carried.writes (h : Carried x) (hv : x.t1.wb.instrRetired = true) :
    x.t1.regFileNext = x.tapped.writes x.t1.regFile := by
  obtain ⟨-, -, -, hrd, -⟩ := h.wb.full hv
  unfold Top.regFileNext Tapped.writes
  rw [hrd]
  rfl

/-- The taps of a retired instruction. -/
theorem Carried.taps (h : Carried x) (hv : x.t1.wb.instrRetired = true) :
    Taps x.t1.tb.instrWb (control (op x.t1.tb.instrWb) (funct x.t1.tb.instrWb)) x.t1.regFile
      x.tapped := by
  obtain ⟨hnop, hregWr, hlink, hrd, hf⟩ := h.wb.full hv
  refine ⟨?_, rowLaws_control _, Or.inr (h.writes hv)⟩
  rw [← decode_eq hnop]
  unfold TopTb.tapped
  rw [hregWr, hlink, hf]
  rfl

/-- Without a retired instruction the registers stay as they are. -/
theorem Carried.kept (h : Carried x) (hv : x.t1.wb.instrRetired = false) :
    x.t1.regFileNext = x.t1.regFile := by
  obtain ⟨hlink, hrd⟩ := h.wb.empty hv
  unfold Top.regFileNext
  split
  next hw =>
    have hrd' := hrd (by rwa [hlink, Bool.or_false] at hw)
    have hdata : x.t1.wb.wrData = 0 := by
      unfold WbPipeReg.wrData wrDataRf
      rw [hlink, hrd']
      rfl
    rw [hrd', hdata, ← h.zero]
    exact Function.update_eq_self _ _
  next => rfl

theorem Carried.observes (h : Carried x) : probe.Observes fun t => x.run imem t where
  taps t hs := ⟨_, _, (h.run t).taps hs⟩
  written t hs := (h.run t).writes hs
  kept t hs := (h.run t).kept hs

end Carried

/-! ## Whole tests -/

/-- What is retired at clock `t` is what the simulator executes in the cycle of that number,
and no `JALR` but one that names register 31. -/
structure SameAt (imem : Word → Word) (s : Top) (sim : Sim) (t : Nat) : Prop where
  runBit : (cycles sim (retiredBefore imem s t)).runBit = true
  pc : (s.run imem t).tb.pcWb = (cycles sim (retiredBefore imem s t)).current.pc
  instr : (s.run imem t).tb.instrWb = wordAt sim (retiredBefore imem s t)
  named : Named (s.run imem t).tb.instrWb
  regs : (s.run imem t).regFileNext = (cycles sim (retiredBefore imem s t + 1)).current.regs

/-- The condition of `TEST PASSED`. -/
def endOfTest (s : Top) : Bool := s.tb.instrWb == 0xc && s.regFileNext 2 == 0xa

/-- Clock `t` does not end the test. -/
def GoesOn (imem : Word → Word) (s : Top) (sim : Sim) (t : Nat) : Prop :=
  (s.run imem t).wb.instrRetired = true →
    SameAt imem s sim t ∧ endOfTest (s.run imem t) = false

section Test

variable {imem : Word → Word} {x : TopTb} {c : Checker} {sim : Sim} {t n : Nat}

theorem before_eq : probe.before (fun t => x.run imem t) t = retiredBefore imem x.t1 t := by
  unfold Probe.before Bench.sampledBefore retiredBefore
  simp only [← TopTb.run_t1]
  rfl

theorem runsAt_iff :
    probe.RunsAt (fun t => x.run imem t) sim t ↔ SameAt imem x.t1 sim t := by
  have hpc : (x.run imem t).tapped.pc = (x.t1.run imem t).tb.pcWb := by
    rw [← TopTb.run_t1]
    rfl
  have hinstr : (x.run imem t).tapped.instr = (x.t1.run imem t).tb.instrWb := by
    rw [← TopTb.run_t1]
    rfl
  have hregs : probe.regs (x.run imem (t + 1)) = (x.t1.run imem t).regFileNext := by
    rw [← TopTb.run_t1]
    rfl
  constructor
  · rintro ⟨⟨h₁, h₂, h₃, h₄⟩, h₅⟩
    rw [before_eq] at h₁ h₂ h₄ h₅
    exact ⟨h₅, hpc.symm.trans h₁, hinstr.symm.trans h₂, hinstr ▸ h₃, hregs.symm.trans h₄⟩
  · rintro ⟨h₁, h₂, h₃, h₄, h₅⟩
    refine ⟨⟨?_, ?_, ?_, ?_⟩, ?_⟩
    · rw [before_eq]
      exact hpc.trans h₂
    · rw [before_eq]
      exact hinstr.trans h₃
    · exact hinstr.symm ▸ h₄
    · rw [before_eq]
      exact hregs.trans h₅
    · rw [before_eq]
      exact h₁

theorem endOfTest_eq :
    (probe.tapped (x.run imem t)).endOfTest = endOfTest (x.t1.run imem t) := by
  rw [← TopTb.run_t1]
  rfl

theorem sample_eq : probe.bench.sample (x.run imem t) = (x.t1.run imem t).wb.instrRetired := by
  rw [← TopTb.run_t1]
  rfl

theorem goesOn_iff :
    probe.bench.GoesOn (fun t => x.run imem t) (probe.RunsAt (fun t => x.run imem t) sim)
        (fun y => (probe.tapped y).endOfTest) t ↔ GoesOn imem x.t1 sim t := by
  unfold Bench.GoesOn GoesOn
  dsimp only
  rw [runsAt_iff, endOfTest_eq, sample_eq]

/-- The testbench of a pipeline right after reset. -/
structure Ready (x : TopTb) (c : Checker) : Prop where
  reset : x.t1.IsReset
  checker : c.Ready x.t1.regFile

theorem Ready.carried (h : Ready x c) : Carried x :=
  carried_of_isReset h.reset ((congrFun h.checker.regs 0).trans h.checker.zero)

theorem test_running_iff (h : Ready x c) :
    (∃ c', test imem x c n = .running c') ↔ ∀ t < n, GoesOn imem x.t1 c.sim t := by
  refine (h.carried.observes.decided.running_iff (Probe.inTest_zero h.checker)).trans ?_
  exact forall₂_congr fun t _ => goesOn_iff

theorem test_passed_iff (h : Ready x c) : test imem x c n = .passed ↔
    ∃ m < n, (∀ t < m, GoesOn imem x.t1 c.sim t) ∧
      (x.t1.run imem m).wb.instrRetired = true ∧ SameAt imem x.t1 c.sim m ∧
        endOfTest (x.t1.run imem m) = true := by
  refine (h.carried.observes.decided.passed_iff (Probe.inTest_zero h.checker)).trans ?_
  refine exists_congr fun m => and_congr_right fun _ => and_congr ?_ ?_
  · exact forall₂_congr fun t _ => goesOn_iff
  · rw [runsAt_iff, endOfTest_eq, sample_eq]

/-- A test that agrees with the simulator as long as it goes on does not fail. -/
theorem test_running_or_passed (h : Ready x c)
    (hsame : ∀ t < n, (∀ u < t, GoesOn imem x.t1 c.sim u) →
      (x.t1.run imem t).wb.instrRetired = true → SameAt imem x.t1 c.sim t) :
    (∃ c', test imem x c n = .running c') ∧ (∀ t < n, GoesOn imem x.t1 c.sim t) ∨
      test imem x c n = .passed := by
  refine (h.carried.observes.decided.running_or_passed (Probe.inTest_zero h.checker)
    fun t ht hall hs => ?_).imp_left fun hrun => ⟨hrun.1, fun t ht => goesOn_iff.mp (hrun.2 t ht)⟩
  exact runsAt_iff.mpr (hsame t ht (fun u hu => goesOn_iff.mp (hall u hu)) (sample_eq ▸ hs))

end Test

/-! ## Programs that suit the pipeline -/

/-- `top` and the simulator start with the same program, if not with the same text. -/
structure StartsWith (imem : Word → Word) (s : Top) (sim : Sim) : Prop where
  boots : Boots imem s (withText imem sim)
  text : AgreesText pipelineLayout imem sim
  runBit : sim.runBit = true

section Suits

variable {imem : Word → Word} {s : Top} {sim : Sim} {i k t : Nat}

/-- One `SYSCALL`, with the text of the testbench. -/
theorem sameText_syscall (h : SameText imem sim i) (htext : AgreesText pipelineLayout imem sim)
    (hs : AtSyscall (cycles sim i)) : SameText imem sim (i + 1) := by
  obtain ⟨-, hwith⟩ := h.fetch htext hs.inText (by rw [hs.word]; decide)
  rw [hs.word] at hwith
  have hacc : ∀ regs, accessesMem 0xc = true → 0x1FFF ≤ (effectiveAddress regs 0xc).toNat :=
    fun _ hacc => absurd hacc (by decide)
  obtain ⟨hmirrors, hkeep⟩ := h.mirrors.cycle hwith hs.word (hacc _)
  obtain ⟨-, hkeep'⟩ := h.mirrors.symm.cycle hs.word hwith (hacc _)
  refine ⟨hmirrors, hkeep.trans h.text, hkeep'.trans h.text', rfl, ?_⟩
  rw [cycles, (cycle_syscall h.next hs.word).1]
  exact Instr.nextPc_aligned h.aligned (cycles sim i).current.regs (.sh .sll 0 0 0)

theorem StartsWith.sameText (hs : StartsWith imem s sim) (h : Suits sim k) (i : Nat)
    (hi : i ≤ k + 1) : SameText imem sim i := by
  induction i with
  | zero => exact ⟨mirrors_withText, rfl, rfl, hs.boots.start.next, hs.boots.start.aligned⟩
  | succ i ih =>
      rcases h.executes i (by omega) with ⟨x, hx⟩ | hsys
      · exact (ih (by omega)).cycle hs.text hx
      · exact sameText_syscall (ih (by omega)) hs.text hsys

/-- What the simulator executes has been loaded. -/
theorem loaded (h : Suits sim k) (hi : i ≤ k) :
    (cycles sim i).current.pc < pipelineLayout.textEnd ∧ wordAt sim i ≠ 0xefefefef := by
  rcases h.executes i hi with ⟨x, hx⟩ | hsys
  · exact ⟨hx.inText, decodeInstr_unloaded hx.word⟩
  · refine ⟨hsys.inText, ?_⟩
    rw [show wordAt sim i = 0xc from hsys.word]
    decide

theorem StartsWith.wordAt_eq (hs : StartsWith imem s sim) (h : Suits sim k) (hi : i ≤ k) :
    wordAt (withText imem sim) i = wordAt sim i := by
  obtain ⟨htext, hword⟩ := loaded h hi
  exact ((hs.sameText h i (by omega)).fetch hs.text htext hword).2

theorem StartsWith.current_eq (hs : StartsWith imem s sim) (h : Suits sim k) (hi : i ≤ k + 1) :
    (cycles sim i).current = (cycles (withText imem sim) i).current :=
  (hs.sameText h i hi).mirrors.current_eq

/-- The program suits the pipeline with the text of the testbench. -/
theorem StartsWith.suitedRun (hs : StartsWith imem s sim) (h : Suits sim k) :
    SuitedRun imem s (withText imem sim) k where
  boots := hs.boots
  suits := by
    refine h.of_eq (fun i hi => ?_) (fun i => hs.wordAt_eq h) fun i => hs.current_eq h
    rcases h.executes i hi with ⟨x, hx⟩ | hsys
    · exact Or.inl ⟨x, (hs.sameText h i (by omega)).executes hs.text hx⟩
    · refine Or.inr ⟨?_, (hs.wordAt_eq h hi).trans hsys.word⟩
      rw [← hs.current_eq h (by omega)]
      exact hsys.inText

/-- What is retired, in terms of the simulator that has loaded the files. -/
theorem StartsWith.same (hs : StartsWith imem s sim) (h : Suits sim k)
    (hv : (s.run imem t).wb.instrRetired = true) (hk : retiredBefore imem s t ≤ k)
    (hbit : (cycles sim (retiredBefore imem s t)).runBit = true) : SameAt imem s sim t := by
  obtain ⟨⟨-, hpc, hinstr, hregs, -⟩, -⟩ := (hs.suitedRun h).retirement hv hk
  have hword : (s.run imem t).tb.instrWb = wordAt sim (retiredBefore imem s t) :=
    hinstr.trans (hs.wordAt_eq h hk)
  refine ⟨hbit, ?_, hword, ?_, ?_⟩
  · rw [hs.current_eq h (by omega)]
    exact hpc
  · rw [hword]
    rcases h.executes _ hk with ⟨x, hx⟩ | hsys
    · exact named_of_decodeInstr hx.word
    · rw [show wordAt sim (retiredBefore imem s t) = 0xc from hsys.word]
      decide
  · rw [hs.current_eq h (by omega)]
    exact hregs

/-- `RUN_BIT` is set until the test has seen the end of the program. -/
theorem StartsWith.runBit_of_goesOn (hs : StartsWith imem s sim) (h : Suits sim k)
    (hall : ∀ u < t, GoesOn imem s sim u) (hk : retiredBefore imem s t ≤ k + 1) :
    (cycles sim (retiredBefore imem s t)).runBit = true := by
  induction t with
  | zero => exact hs.runBit
  | succ t ih =>
      have hall' : ∀ u < t, GoesOn imem s sim u := fun u hu => hall u (by omega)
      cases hv : (s.run imem t).wb.instrRetired with
      | false =>
          have hcount : retiredBefore imem s (t + 1) = retiredBefore imem s t := by
            unfold retiredBefore
            rw [Nat.count_succ, hv]
            rfl
          rw [hcount] at hk ⊢
          exact ih hall' hk
      | true =>
          have hcount : retiredBefore imem s (t + 1) = retiredBefore imem s t + 1 := by
            unfold retiredBefore
            rw [Nat.count_succ, if_pos hv]
          rw [hcount] at hk ⊢
          have hbit := ih hall' (by omega)
          have hnext := (hs.sameText h (retiredBefore imem s t) (by omega)).next
          obtain ⟨hsame, hend⟩ := hall t (Nat.lt_succ_self t) hv
          rcases h.executes _ (show retiredBefore imem s t ≤ k by omega) with ⟨x, hx⟩ | hsys
          · rw [cycles, cycle_eq hnext hx.word]
            exact hbit
          · obtain ⟨hcur, -, hkeep⟩ := cycle_syscall hnext hsys.word
            refine (hkeep fun h2 => ?_).trans hbit
            -- the test would have ended here
            have hregs := congrFun hsame.regs 2
            rw [cycles, hcur] at hregs
            unfold endOfTest at hend
            rw [hsame.instr, show wordAt sim _ = 0xc from hsys.word, hregs, h2] at hend
            exact absurd hend (by decide)

end Suits

/-! ## The program in the files -/

/-- `boot_code`, for the predictor. -/
def bootBpred (b : Bpred) : Bpred where
  bpred i := if i.toNat < 1023 then 0 else b.bpred i
  btb i := if i.toNat < 1023 then 0 else b.btb i

/-- `top_tb` when `reset` goes low, with what `init_dmem` and `boot_code` have written.  It
held `x` before. -/
def TopTb.booted (x : TopTb) : TopTb :=
  { x with
    t1 := { x.t1 with
      currPc := 0, iss := {}, ex := {}, mem := {}, wb := {}
      regFile := fun _ => 0
      dmem := initDmem 0x40000 x.t1.dmem
      bpred := bootBpred x.t1.bpred } }

/-- `top_tb` on the program in the files, after `n` clocks out of reset. -/
def topTb (imem : Word → Word) (x : TopTb) (words : List (Word × Word)) (n : Nat) :
    Outcome Checker Mismatch :=
  test (initImem 2048 imem words) x.booted (init words) n

section Files

variable {words : List (Word × Word)}

theorem covers_pipeline : Covers pipelineLayout 0x40000 := by
  intro addr hlow hhigh
  have hlow' : 0x2000 ≤ addr.toNat := hlow
  have hhigh' : addr.toNat < 0x102000 := hhigh
  show (dataMemIndex 0x2000 addr).toNat < 0x40000
  rw [dataMemIndex_toNat, BitVec.toNat_sub]
  simp
  omega

theorem ready_booted (x : TopTb) (words : List (Word × Word)) :
    Ready x.booted (init words) where
  reset := ⟨rfl, rfl, rfl, rfl, rfl⟩
  checker := init_ready words

theorem startsWith_files (hl : Loadable pipelineLayout words) (imem : Word → Word) (x : TopTb) :
    StartsWith (initImem 2048 imem words) x.booted.t1 (init words).sim where
  boots := ⟨(ready_booted x words).reset, hl.lockstep covers_pipeline _ x.t1.dmem⟩
  text := hl.agreesText
  runBit := init_runBit words

/-- For any files and any predictor, the test goes on exactly as long as every retired
instruction agrees with the simulator in its address, its word and all registers it leaves
behind, and none is the last; and it passes exactly if they agree up to the last. -/
theorem pipelineTb_iff (imem : Word → Word) (x : TopTb) (words : List (Word × Word)) (n : Nat) :
    let imem' := initImem 2048 imem words
    let s := x.booted.t1
    let sim := (init words).sim
    ((∃ c, topTb imem x words n = .running c) ↔ ∀ t < n, GoesOn imem' s sim t) ∧
      (topTb imem x words n = .passed ↔ ∃ m < n, (∀ t < m, GoesOn imem' s sim t) ∧
        (s.run imem' m).wb.instrRetired = true ∧ SameAt imem' s sim m ∧
          endOfTest (s.run imem' m) = true) := by
  intro imem' s sim
  have h : Ready x.booted (init words) := ready_booted x words
  exact ⟨test_running_iff h, test_passed_iff h⟩

/-- The test of a program that suits the pipeline does not fail, whatever memories and
predictor held before, and passes if the program comes to its end. -/
theorem pipelineTb_suits (hl : Loadable pipelineLayout words) {k : Nat}
    (h : Suits (init words).sim k) (imem : Word → Word) (x : TopTb) :
    (∀ n, retiredBefore (initImem 2048 imem words) x.booted.t1 n ≤ k + 1 →
      (∃ c, topTb imem x words n = .running c) ∨ topTb imem x words n = .passed) ∧
    (EndsAt (init words).sim k → ∃ n, topTb imem x words n = .passed) := by
  have hs := startsWith_files hl imem x
  have hready : Ready x.booted (init words) := ready_booted x words
  have hgood : ∀ n, retiredBefore (initImem 2048 imem words) x.booted.t1 n ≤ k + 1 →
      (∃ c, topTb imem x words n = .running c) ∧
        (∀ t < n, GoesOn (initImem 2048 imem words) x.booted.t1 (init words).sim t) ∨
      topTb imem x words n = .passed := by
    intro n hn
    refine test_running_or_passed hready fun t ht hall hv => ?_
    have hlt : retiredBefore (initImem 2048 imem words) x.booted.t1 t <
        retiredBefore (initImem 2048 imem words) x.booted.t1 n := Nat.count_strict_mono hv ht
    exact hs.same h hv (by omega) (hs.runBit_of_goesOn h hall (by omega))
  refine ⟨fun n hn => (hgood n hn).imp_left And.left, fun hend => ?_⟩
  obtain ⟨t, hv, hk⟩ := (hs.suitedRun h).exists_retired
  have hcount : retiredBefore (initImem 2048 imem words) x.booted.t1 (t + 1) = k + 1 := by
    rw [← hk]
    unfold retiredBefore
    rw [Nat.count_succ, if_pos hv]
  rcases hgood (t + 1) (by omega) with ⟨-, hall⟩ | hpass
  · -- the test has gone on beyond the last instruction
    obtain ⟨hsame, hno⟩ := hall t (Nat.lt_succ_self t) hv
    have hregs := congrFun hsame.regs 2
    rw [hk, cycles, (cycle_syscall (hs.sameText h k (by omega)).next hend.word).1] at hregs
    unfold endOfTest at hno
    rw [hsame.instr, hk, show wordAt _ k = 0xc from hend.word, hregs, hend.status] at hno
    exact absurd hno (by decide)
  · exact ⟨t + 1, hpass⟩

/-- `countdown`, as its files hold it. -/
def countdownWords : List (Word × Word) :=
  [(0, 0x20010002), (4, 0x2021FFFF), (8, 0x1420FFFE), (12, 0x2002000A), (16, 0xC)]

theorem suits_countdownWords : Suits (init countdownWords).sim 6 where
  executes i hi := by
    rcases Nat.lt_or_eq_of_le hi with hlt | rfl
    · refine Or.inl ⟨countdownInstr i, ?_⟩
      interval_cases i <;> exact executes_of_check (by decide +kernel)
    · exact Or.inr ⟨by decide +kernel, by decide +kernel⟩
  loadUse i hi := not_loadUse (by interval_cases i <;> decide +kernel)
  linkUse i hi := by interval_cases i <;> decide +kernel
  lateLinkUse i hi := by
    have hi' : i ≤ 4 := by omega
    interval_cases i <;> decide +kernel
  shadow i hi := by
    have hi' : i ≤ 4 := by omega
    interval_cases i <;> decide +kernel

/-- With a predictor that takes everything for a branch to address 12, where `boot_code` has
left it alone. -/
theorem pipelineTb_suits_countdown :
    ∃ n, topTb (fun _ => 0) ⟨Top.misled, .ofInstr 0, .ofInstr 0, .ofInstr 0⟩ countdownWords n =
      .passed := by
  refine (pipelineTb_suits ?_ suits_countdownWords _ _).2 ⟨by decide +kernel, by decide +kernel⟩
  exact ⟨by decide, by simp [countdownWords], by simp [countdownWords],
    by simp [countdownWords, pipelineLayout]⟩

end Files

end SimpleCpu.Mips.PipelineBench
