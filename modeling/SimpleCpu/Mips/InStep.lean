import SimpleCpu.CoSim.Bench
import SimpleCpu.Mips.Programs

/-!
# `run (1)` for every retirement

The testbench of the MIPS pipeline calls `run (1)` at every pulse of `instr_retired`.  The
pulse is the valid bit that the decoder gives a word.  A flushed register holds zeros, so
the decoder gives no valid bit to the shift of zeros; but a shift of zeros that has been
fetched is executed by the simulator.

* `tagged_run`: which stages hold an instruction that has not been flushed.
* `executed_sequential`: those that leave are the instructions of the sequential machine.
* `Comparable.executes_eq`: so they are those of the simulator.
* `in_step_iff`: the simulator is in step until a shift of zeros leaves.
-/

namespace SimpleCpu.Mips

open SimpleCpu.CoSim SimpleCpu.Rtl SimpleCpu.Pipeline SimpleCpu.Mips.Isa SimpleCpu.Mips.Iss

/-! ## What leaves the pipeline -/

section Definitions

variable (imem : Word → Word) (s : Top) (sim : Sim)

/-- The write-back stage holds an instruction at clock `t`: a word that has been fetched and
not been flushed. -/
def Executed (t : Nat) : Prop := ((core imem).track s.abs t).wb = true

instance (t : Nat) : Decidable (Executed imem s t) :=
  inferInstanceAs (Decidable (_ = true))

/-- How many instructions have left the write-back stage before clock `t`. -/
def executedBefore (t : Nat) : Nat := Nat.count (fun u => Executed imem s u) t

/-- `run (1)`, which exits when the simulator has halted. -/
def run1 (sim : Sim) : Option Sim := if sim.runBit = false then none else some (cycle sim)

/-- The simulator at clock `t`, after one `run (1)` for every pulse of `instr_retired`. -/
def simAt : Nat → Option Sim
  | 0 => some sim
  | t + 1 => if (s.run imem t).wb.instrRetired then (simAt t).bind run1 else simAt t

/-- The instruction that leaves at clock `u` is the next one of the simulator `sim`, and it
leaves with the registers of the simulator. -/
structure Leaves (u : Nat) : Prop where
  pc : (s.run imem u).tb.pcWb = sim.current.pc
  word : (s.run imem u).tb.instrWb = sim.memRead sim.current.pc
  regs : (s.run imem u).regFile = sim.current.regs

/-- Before clock `t` the instructions that have left are those that the simulator executes, one
after the other; there were as many pulses, and every call of `run (1)` has executed the
instruction of its pulse. -/
structure InStep (t : Nat) : Prop where
  executes : ∀ u < t, Executed imem s u → Leaves imem s (cycles sim (executedBefore imem s u)) u
  pulses : retiredBefore imem s t = executedBefore imem s t
  aligned : ∀ u < t, (s.run imem u).wb.instrRetired = true →
    ∃ sim' ∈ simAt imem s sim u, Leaves imem s sim' u
  sim : simAt imem s sim t = some (cycles sim (executedBefore imem s t))

/-- Both machines have the instructions that leave before clock `t`, the simulator has not
halted, and the pipeline meets neither an operand that is not brought up to date nor a branch
in the shadow of another. -/
structure Comparable (t : Nat) : Prop where
  executes : ∀ i < executedBefore imem s t,
    (∃ x, Executes pipelineLayout (fun _ => true) (cycles sim i) x) ∨ AtSyscall (cycles sim i)
  running : ∀ i < executedBefore imem s t, (cycles sim i).runBit = true
  safe : SafeUpTo imem s (retiredBefore imem s t)

/-- The instructions that have left, as the general pipeline numbers them. -/
theorem executedBefore_eq (t : Nat) :
    executedBefore imem s t = ((core imem).track s.abs t).n := by
  induction t with
  | zero => rfl
  | succ t ih =>
      unfold executedBefore at ih ⊢
      rw [Nat.count_succ, ih, Core.track_succ, Core.stepTrack_n, Track.iMid]
      by_cases hx : Executed imem s t
      · have hwb : ((core imem).track s.abs t).wb = true := hx
        rw [if_pos hx, hwb]
        rfl
      · have hwb : ((core imem).track s.abs t).wb = false := Bool.eq_false_iff.mpr hx
        rw [if_neg hx, hwb]
        rfl

end Definitions

/-! ## The stages -/

/-- The registers of the stages that hold an instruction have the words that the testbench
carries along, and a stage is valid when it holds one that is no shift of zeros. -/
structure Tagged (T : Track) (s : Top) : Prop where
  issFull : T.iss = true → s.iss.instr = s.tb.instrIss
  issEmpty : T.iss = false → s.iss = {}
  ex : s.ex.valid = true ↔ T.ex = true ∧ ¬ IsNop s.tb.instrEx
  mem : s.mem.valid = true ↔ T.mid = true ∧ ¬ IsNop s.tb.instrMem
  wb : s.wb.instrRetired = true ↔ T.wb = true ∧ ¬ IsNop s.tb.instrWb

section Stages

variable {imem : Word → Word} {s : Top}

/-- An empty stage is not valid. -/
theorem empty_stage_iff (p : Prop) : false = true ↔ false = true ∧ p :=
  iff_of_false Bool.false_ne_true fun h => Bool.false_ne_true h.1

theorem tagged_of_isReset (h : s.IsReset) : Tagged Track.empty s where
  issFull hiss := absurd hiss Bool.false_ne_true
  issEmpty _ := h.iss
  ex := by
    rw [h.ex]
    exact empty_stage_iff _
  mem := by
    rw [h.mem]
    exact empty_stage_iff _
  wb := by
    rw [h.wb]
    exact empty_stage_iff _

/-- The word in the issue stage is valid when it is an instruction. -/
theorem Tagged.iss {T : Track} (h : Tagged T s) :
    (issueStage false s.iss).valid = true ↔ T.iss = true ∧ ¬ IsNop s.tb.instrIss := by
  cases hiss : T.iss with
  | true =>
      rw [issueStage_valid_iff, h.issFull hiss]
      exact (and_iff_right rfl).symm
  | false =>
      rw [h.issEmpty hiss, issueStage_bubble_valid]
      exact empty_stage_iff _

theorem Tagged.clock {T : Track} (h : Tagged T s) :
    Tagged ((core imem).stepTrack s.abs T) (s.clock imem false) where
  issFull hiss := by
    have hflush : (s.flushIss false || s.flushIncorrPredIss) = false := by
      rw [← flushIss_abs imem]
      simpa [Core.stepTrack] using hiss
    have heq : (s.clock imem false).iss = _ := if_neg (by simpa using hflush)
    rw [heq]
    rfl
  issEmpty hiss := by
    have hflush : (s.flushIss false || s.flushIncorrPredIss) = true := by
      rw [← flushIss_abs imem]
      simpa [Core.stepTrack] using hiss
    exact if_pos (by rw [Bool.false_or, hflush])
  ex := by
    have hT : ((core imem).stepTrack s.abs T).ex =
        (T.iss && !(s.flushEx || s.flushIncorrPredEx)) := by
      rw [← flushEx_abs imem]
      rfl
    rw [hT]
    cases hflush : s.flushEx || s.flushIncorrPredEx with
    | true =>
        have heq : (s.clock imem false).ex = {} := if_pos (by rw [Bool.false_or, hflush])
        rw [heq, Bool.not_true, Bool.and_false]
        exact empty_stage_iff _
    | false =>
        rw [clock_ex hflush, Bool.not_false, Bool.and_true]
        exact h.iss
  mem := h.ex
  wb := h.mem

theorem tagged_run (h : s.IsReset) (t : Nat) :
    Tagged ((core imem).track s.abs t) (s.run imem t) := by
  induction t with
  | zero => exact tagged_of_isReset h
  | succ t ih =>
      rw [Core.track_succ, ← abs_run]
      exact ih.clock

/-- An instruction that leaves is retired unless it is a shift of zeros. -/
theorem retired_iff (h : s.IsReset) (t : Nat) : (s.run imem t).wb.instrRetired = true ↔
    Executed imem s t ∧ ¬ IsNop (s.run imem t).tb.instrWb :=
  (tagged_run h t).wb

/-- The instructions that leave are those of the sequential machine, in this order, as long
as the pipeline meets neither an operand that is not brought up to date nor a branch in the
shadow of another. -/
theorem executed_sequential (h : s.IsReset) (hzero : s.regFile 0 = 0) {t : Nat}
    (hsafe : SafeUpTo imem s (retiredBefore imem s t)) (hx : Executed imem s t) :
    let a := (core imem).seqRun s.arch (executedBefore imem s t)
    (s.run imem t).tb.pcWb = a.pc ∧ (s.run imem t).tb.instrWb = instrMemRead imem a.pc ∧
      (s.run imem t).regFile = a.regs := by
  have hcount : (core imem).retiredBefore s.abs t = retiredBefore imem s t := by
    unfold Core.retiredBefore retiredBefore
    simp only [← abs_run]
    rfl
  have hrun := (hsafe.cleanRun h hzero).runHyps_of_written (fun _ => hx) (Nat.le_of_eq hcount)
  have hinv := hrun.inv t
  have hshadow := hinv.shadowWb hx (by omega)
  have hregs := hinv.regs (by omega)
  rw [← abs_run] at hshadow hregs
  rw [executedBefore_eq]
  exact ⟨congrArg Prod.fst hshadow, congrArg Prod.snd hshadow, hregs⟩

end Stages

/-! ## The simulator -/

section Comparable

variable {imem : Word → Word} {s : Top} {sim : Sim} {t : Nat}

/-- The calls of `run (1)` are cycles of the simulator until it halts. -/
theorem simAt_eq (h : ∀ i < retiredBefore imem s t, (cycles sim i).runBit = true) :
    simAt imem s sim t = some (cycles sim (retiredBefore imem s t)) := by
  induction t with
  | zero => rfl
  | succ t ih =>
      unfold retiredBefore at h ih ⊢
      unfold simAt
      rw [Nat.count_succ] at h ⊢
      cases hv : (s.run imem t).wb.instrRetired with
      | false =>
          simp only [hv, Bool.false_eq_true, if_false, Nat.add_zero] at h ⊢
          exact ih h
      | true =>
          simp only [hv, if_true] at h ⊢
          rw [ih fun i hi => h i (by omega), Option.bind_some, run1,
            if_neg (by rw [h _ (Nat.lt_succ_self _)]; exact nofun)]
          rfl

theorem executedBefore_lt {u : Nat} (hu : u < t) (hx : Executed imem s u) :
    executedBefore imem s u < executedBefore imem s t :=
  Nat.count_strict_mono hx hu

/-- The instructions that leave are those of the simulator, in this order. -/
theorem Comparable.executes_eq (hb : Boots imem s sim) (h : Comparable imem s sim t) {u : Nat}
    (hu : u < t) (hx : Executed imem s u) :
    Leaves imem s (cycles sim (executedBefore imem s u)) u := by
  have hlt := executedBefore_lt hu hx
  have hlock := hb.lockstep (k := executedBefore imem s u)
    (fun i hi => h.executes i (by omega)) _ (Nat.le_refl _)
  have hsafe := h.safe.mono (Nat.count_monotone _ hu.le)
  have hzero : s.regFile 0 = 0 := (congrFun hb.start.regs 0).trans hb.start.zero
  obtain ⟨hpc, hword, hregs⟩ := executed_sequential hb.reset hzero hsafe hx
  refine ⟨hpc.trans hlock.pc, hword.trans ?_, hregs.trans hlock.regs⟩
  rw [hlock.pc]
  exact (hlock.mem.text _ hlock.aligned (executable_inText (h.executes _ hlt))).symm

/-- Where both machines can be compared, the simulator is in step with the pipeline at a clock
exactly when no shift of zeros has left the pipeline before. -/
theorem in_step_iff (hb : Boots imem s sim) (h : Comparable imem s sim t) :
    InStep imem s sim t ↔
      ∀ u < t, Executed imem s u → ¬ IsNop (s.run imem u).tb.instrWb := by
  have hcount := fun t => count_eq_iff (p := fun u => Executed imem s u)
    (q := fun u => (s.run imem u).wb.instrRetired = true)
    (fun u hu => ((retired_iff hb.reset u).mp hu).1) t
  have hretired : ∀ u, Executed imem s u →
      ((s.run imem u).wb.instrRetired = true ↔ ¬ IsNop (s.run imem u).tb.instrWb) :=
    fun u hx => (retired_iff hb.reset u).trans (and_iff_right hx)
  constructor
  · intro hstep u hu hx
    exact (hretired u hx).mp ((hcount t).mp hstep.pulses u hu hx)
  · intro hno
    have hpulses : ∀ u ≤ t, retiredBefore imem s u = executedBefore imem s u :=
      fun u hu => (hcount u).mpr fun v hv hx => (hretired v hx).mpr (hno v (by omega) hx)
    have hsim : ∀ u ≤ t, simAt imem s sim u = some (cycles sim (executedBefore imem s u)) := by
      intro u hu
      rw [← hpulses u hu]
      refine simAt_eq fun i hi => h.running i (hi.trans_le ?_)
      exact (hpulses u hu).trans_le (Nat.count_monotone _ hu)
    refine ⟨fun u hu hx => h.executes_eq hb hu hx, hpulses t (Nat.le_refl t), fun u hu hv => ?_,
      hsim t (Nat.le_refl t)⟩
    exact ⟨_, hsim u hu.le, h.executes_eq hb hu ((retired_iff hb.reset u).mp hv).1⟩

end Comparable

/-- The countdown up to its `SYSCALL`, with a predictor that takes everything for a branch to
address 12. -/
theorem in_step_iff_countdown :
    executedBefore countdown Top.misled 25 = 7 ∧
      InStep countdown Top.misled (bootSim pipelineLayout countdown (fun _ => 0) fun _ => 0)
        25 := by
  have hb : Boots countdown Top.misled
      (bootSim pipelineLayout countdown (fun _ => 0) fun _ => 0) :=
    ⟨⟨rfl, rfl, rfl, rfl, rfl⟩, lockstep_bootSim rfl⟩
  have hseven : executedBefore countdown Top.misled 25 = 7 := by decide +kernel
  have hrunning : (List.range 7).all (fun i =>
      (cycles (bootSim pipelineLayout countdown (fun _ => 0) fun _ => 0) i).runBit) = true := by
    decide +kernel
  have hsafe : SafeUpTo countdown Top.misled 7 :=
    safeUpTo_of_check (n := 26) (by decide +kernel) (by decide +kernel)
  have hcmp : Comparable countdown Top.misled
      (bootSim pipelineLayout countdown (fun _ => 0) fun _ => 0) 25 := by
    refine ⟨fun i hi => ?_, fun i hi => ?_, hsafe.mono (by decide +kernel)⟩
    · rw [hseven] at hi
      rcases suits_countdown.executes i (by omega) with ⟨x, hx⟩ | hs
      · exact Or.inl ⟨x, hx.inText, hx.word, rfl, hx.inData⟩
      · exact Or.inr hs
    · rw [hseven] at hi
      exact List.all_eq_true.mp hrunning i (List.mem_range.mpr hi)
  exact ⟨hseven, (in_step_iff hb hcmp).mpr (by decide +kernel)⟩

/-- A shift of zeros, and `ADDI r1, r1, 1` from then on. -/
def nopFirst : Word → Word := fun i => if i = 0 then 0 else 0x20210001

/-- The shift of zeros leaves without a pulse. -/
theorem nop_not_in_step :
    ¬ ∀ (imem : Word → Word) (s : Top) (sim : Sim) (t : Nat), Boots imem s sim →
      Comparable imem s sim t → InStep imem s sim t := by
  intro hall
  have hone : executedBefore nopFirst (Top.cleared fun _ => 0) 5 = 1 := by decide +kernel
  have hsafe : SafeUpTo nopFirst (Top.cleared fun _ => 0) 0 :=
    safeUpTo_of_check (n := 6) (by decide +kernel) (by decide +kernel)
  have hstep := hall nopFirst _ _ 5 (boots_cleared nopFirst fun _ => 0)
    ⟨fun i hi => ?_, fun i hi => ?_, hsafe.mono (by decide +kernel)⟩
  · exact absurd hstep.pulses (by decide +kernel)
  · obtain rfl : i = 0 := by omega
    exact Or.inl ⟨.sh .sll 0 0 0, executes_of_check (by decide +kernel)⟩
  · obtain rfl : i = 0 := by omega
    decide +kernel

end SimpleCpu.Mips
