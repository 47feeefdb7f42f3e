import SimpleCpu.CoSim.Bench
import SimpleCpu.Mips.Textbook.Refinement

/-!
# The testbench of the textbook pipeline

`top_tb.sv` calls `run (1)` for what it takes for a retired instruction.  It takes a word in
WB that is also the word in MEM for one that is held there, although both registers take
over a new word at every clock.

* `runsIss_eq`: such a word gets no `run (1)`, every other instruction does.
* `repeats_iff`: where they are, two clocks later than in ID and EX.
* `runs_iff`: so the simulator is in step unless an instruction follows itself.

A comparison that fails and the final `SYSCALL` end a simulation; the bench here goes on.
-/

namespace SimpleCpu.Mips.Textbook

open SimpleCpu.CoSim SimpleCpu.Mips.Isa SimpleCpu.Mips.Iss

/-! ## `top_tb.sv` -/

/-- `instr_retired_wb` -/
def Top.instrRetiredWb (s : Top) : Bool :=
  (s.memWb.valid && s.memWb.instr != 0 && s.exMem.instr != s.memWb.instr) ||
    s.memWb.instr == 0xc

def Types.any (t : Types) : Bool := t.isRType || t.isIType || t.isJType

/-- `run (1)` is called at the edge. -/
def Top.runsIss (s : Top) : Bool := s.instrRetiredWb && s.wbTypes.any

/-- `run (1)`.  A simulator that has been halted exits. -/
def runOne (sim : Sim) : Option Sim := if sim.runBit = true then some (cycle sim) else none

/-- The pipeline, the simulator unless it has exited, and the calls of `run (1)`. -/
structure Bench where
  top : Top
  sim : Option Sim
  runs : Nat

section Bench

variable (imem : BitVec 32 → BitVec 32)

/-- One clock with `reset` low. -/
def Bench.clock (b : Bench) : Bench where
  top := b.top.clock imem false
  sim := if b.top.runsIss then b.sim.bind runOne else b.sim
  runs := if b.top.runsIss then b.runs + 1 else b.runs

def Bench.run (b : Bench) : Nat → Bench
  | 0 => b
  | t + 1 => (Bench.run b t).clock imem

/-- The bench when `reset` is released. -/
def Bench.start (s : Top) (sim : Sim) : Bench where
  top := s
  sim := some sim
  runs := 0

variable (s : Top) (sim : Sim)

theorem run_top (n : Nat) : ((Bench.start s sim).run imem n).top = s.run imem n := by
  induction n with
  | zero => rfl
  | succ n ih => exact congrArg (Top.clock imem false) ih

theorem run_runs (n : Nat) : ((Bench.start s sim).run imem n).runs =
    Nat.count (fun t => (s.run imem t).runsIss = true) n := by
  induction n with
  | zero => rfl
  | succ n ih =>
      show (if ((Bench.start s sim).run imem n).top.runsIss then
        ((Bench.start s sim).run imem n).runs + 1 else ((Bench.start s sim).run imem n).runs) = _
      rw [run_top, ih, Nat.count_succ]
      split <;> rfl

/-- The simulator has executed one instruction for every call. -/
theorem run_sim (n : Nat) (sim' : Sim) (h : ((Bench.start s sim).run imem n).sim = some sim') :
    sim' = cycles sim ((Bench.start s sim).run imem n).runs := by
  induction n generalizing sim' with
  | zero => exact (Option.some.inj h).symm
  | succ n ih =>
      have hstep : (if ((Bench.start s sim).run imem n).top.runsIss then
        ((Bench.start s sim).run imem n).sim.bind runOne
        else ((Bench.start s sim).run imem n).sim) = some sim' := h
      show sim' = cycles sim (if ((Bench.start s sim).run imem n).top.runsIss then
        ((Bench.start s sim).run imem n).runs + 1 else ((Bench.start s sim).run imem n).runs)
      split at hstep
      next hruns =>
          obtain ⟨sim₁, hsim₁, hone⟩ := Option.bind_eq_some_iff.mp hstep
          rw [if_pos hruns]
          unfold runOne at hone
          split at hone
          next => exact (Option.some.inj hone).symm.trans (congrArg cycle (ih sim₁ hsim₁))
          next => exact absurd hone.symm (Option.some_ne_none _)
      next hruns =>
          rw [if_neg hruns]
          exact ih sim' hstep

end Bench

/-! ## What the stages hold -/

/-- What is known of the words on their way, whatever they are. -/
structure Flow (s : Top) : Prop where
  typed : Typed s
  exValid : s.idEx.valid = (typesOf s.idEx.instr).any
  memValid : s.exMem.valid = (typesOf s.exMem.instr).any
  wbValid : s.memWb.valid = (typesOf s.memWb.instr).any
  held : isControl (op s.idEx.instr) = true → s.ifId.instr = 0
  independent : ((typesOf s.idEx.instr).isIType = true ∨ (typesOf s.idEx.instr).isRType = true) →
    dependsOn s.idEx.instr s.exMem.instr s.memTypes = false ∧
      dependsOn s.idEx.instr s.memWb.instr s.wbTypes = false

section Flow

variable {s : Top}

theorem control_types : s.control.types = typesOf s.ifId.instr :=
  controlUnit_types _ _

theorem flow_of_isReset (h : s.IsReset) : Flow s where
  typed := by
    refine ⟨Or.inl ?_, Or.inl ?_, Or.inl ?_⟩
    · rw [h.idEx]
    · rw [h.exMem]
    · rw [h.memWb]
  exValid := by
    rw [h.idEx]
    rfl
  memValid := by
    rw [h.exMem]
    rfl
  wbValid := by
    rw [h.memWb]
    rfl
  held _ := by rw [h.ifId]
  independent hty := by
    rw [h.idEx] at hty
    exact absurd hty (by decide)

/-- What a clock leaves in EX. -/
theorem clock_idEx (imem : BitVec 32 → BitVec 32) :
    (s.dataStall false = false ∧ (s.clock imem false).idEx = {}) ∨
      (s.dataStall false = true ∧ (s.clock imem false).idEx = s.issued false) := by
  have heq : (s.clock imem false).idEx =
      if false || !s.dataStall false then ({} : IdEx) else s.issued false := rfl
  rw [heq]
  cases s.dataStall false with
  | false => exact Or.inl ⟨rfl, rfl⟩
  | true => exact Or.inr ⟨rfl, rfl⟩

theorem Flow.clock (h : Flow s) (imem : BitVec 32 → BitVec 32) : Flow (s.clock imem false) where
  typed := h.typed.clock imem
  exValid := by
    obtain ⟨-, heq⟩ | ⟨-, heq⟩ := clock_idEx (s := s) imem
    · rw [heq]
      rfl
    · rw [heq]
      show (s.control.types.any && !false) = (typesOf s.ifId.instr).any
      rw [control_types, Bool.not_false, Bool.and_true]
  memValid := h.exValid
  wbValid := h.memValid
  held hctl := by
    obtain ⟨-, heq⟩ | ⟨hds, heq⟩ := clock_idEx (s := s) imem
    · rw [heq] at hctl
      exact absurd hctl (by decide)
    · rw [heq] at hctl
      have hcs : s.controlStall false = false := by
        rw [Bool.eq_false_iff]
        intro htrue
        have hclear : isControl (op s.ifId.instr) = false := (controlStall_eq_true_iff.mp htrue).1
        exact Bool.false_ne_true (hclear.symm.trans hctl)
      show (if false then ({} : IfId) else if !s.dataStall false then s.ifId
        else if !s.controlStall false then {}
        else { instr := iMemBank imem s.pc, nextPc := 4 + s.pc }).instr = 0
      rw [hds, hcs]
      rfl
  independent hty := by
    obtain ⟨-, heq⟩ | ⟨hds, heq⟩ := clock_idEx (s := s) imem
    · rw [heq] at hty
      exact absurd hty (by decide)
    · rw [heq] at hty ⊢
      have hty' : s.control.isIType = true ∨ s.control.isRType = true := by
        have htypes : (s.control.types.isIType = true ∨ s.control.types.isRType = true) := by
          rw [control_types]
          exact hty
        exact htypes
      obtain ⟨hex, hmem, -⟩ := not_dependsOn hds hty'
      exact ⟨hex, hmem⟩

theorem flow_run (h : s.IsReset) (imem : BitVec 32 → BitVec 32) (t : Nat) :
    Flow (s.run imem t) := by
  induction t with
  | zero => exact flow_of_isReset h
  | succ t ih => exact ih.clock imem

/-- `run (1)` is called for an instruction in WB unless its word is also in MEM. -/
theorem runsIss_eq (h : Flow s) :
    s.runsIss = (s.retired && s.exMem.instr != s.memWb.instr) := by
  unfold Top.runsIss Top.instrRetiredWb Top.retired
  rcases h.typed.wb with hzero | htypes
  · have hsyscall : (s.memWb.instr == 0xc) = false := by
      rw [hzero]
      rfl
    have hne : (s.memWb.instr != 0) = false := by
      rw [hzero]
      rfl
    rw [hsyscall, hne, Bool.and_false, Bool.false_and, Bool.false_or, Bool.false_and]
  · rw [h.wbValid, htypes]
    cases hany : (typesOf s.memWb.instr).any with
    | false => simp only [Bool.false_and, Bool.and_false]
    | true =>
        have hsyscall : (s.memWb.instr == 0xc) = false := by
          rw [beq_eq_false_iff_ne]
          intro heq
          rw [heq] at hany
          exact absurd hany (by decide)
        rw [hsyscall, Bool.or_false, Bool.and_true]

/-! ## Words that follow themselves -/

/-- ID and EX hold the same R-type word, which does not name its destination as a source. -/
structure Repeats (s : Top) : Prop where
  same : s.ifId.instr = s.idEx.instr
  isRType : (typesOf s.idEx.instr).isRType = true
  rs : rs s.idEx.instr ≠ rd s.idEx.instr
  rt : rt s.idEx.instr ≠ rd s.idEx.instr

/-- A word has one type. -/
theorem typesOf_isRType (w : BitVec 32) (h : (typesOf w).isRType = true) :
    w ≠ 0 ∧ (typesOf w).isIType = false ∧ isControl (op w) = false := by
  unfold typesOf at h ⊢
  have hw : w ≠ 0 := by
    rintro rfl
    exact absurd h Bool.false_ne_true
  by_cases hop : op w = 0
  · unfold controlUnit at h ⊢
    rw [if_neg hw, if_pos hop] at h ⊢
    split at h
    next => exact absurd h Bool.false_ne_true
    next hf =>
      rw [if_neg hf]
      refine ⟨hw, rfl, ?_⟩
      rw [hop]
      rfl
  · have hrow : ∀ o : BitVec 6, o ≠ 0 → (controlUnit none o 0 1).types.isRType = false := by
      decide
    rw [controlUnit_of_op hw hop, hrow _ hop] at h
    exact absurd h Bool.false_ne_true

/-- Only a jump is of type J. -/
theorem typesOf_isJType {w : BitVec 32} (h : (typesOf w).isJType = true) :
    isControl (op w) = true := by
  unfold typesOf at h
  by_cases hw : w = 0
  · subst hw
    exact absurd h Bool.false_ne_true
  by_cases hop : op w = 0
  · unfold controlUnit at h
    rw [if_neg hw, if_pos hop] at h
    split at h
    next => exact absurd h Bool.false_ne_true
    next => exact absurd h Bool.false_ne_true
  · have hrow : ∀ o : BitVec 6, o ≠ 0 → (controlUnit none o 0 1).types.isJType = true →
        isControl o = true := by
      decide
    rw [controlUnit_of_op hw hop] at h
    exact hrow _ hop h

theorem typesOf_any {w : BitVec 32} (h : (typesOf w).any = true) :
    (typesOf w).isRType = true ∨ (typesOf w).isIType = true ∨ isControl (op w) = true := by
  unfold Types.any at h
  rw [Bool.or_eq_true, Bool.or_eq_true, or_assoc] at h
  rcases h with hr | hi | hj
  · exact Or.inl hr
  · exact Or.inr (Or.inl hi)
  · exact Or.inr (Or.inr (typesOf_isJType hj))

/-- The dependence of a word on a word of type R. -/
theorem dependsOn_r {ird w : BitVec 32} (hr : (typesOf w).isRType = true) :
    dependsOn ird w (typesOf w) = false ↔ rs ird ≠ rd w ∧ rt ird ≠ rd w := by
  obtain ⟨hw, hi, -⟩ := typesOf_isRType w hr
  unfold dependsOn
  simp only [hr, hi, bne_iff_ne.mpr hw, Bool.and_true, Bool.and_false, Bool.or_false,
    Bool.true_and, Bool.or_eq_false_iff, beq_eq_false_iff_ne]
  rfl

/-- A word of type I waits for itself. -/
theorem dependsOn_i {w : BitVec 32} (hw : w ≠ 0) (hi : (typesOf w).isIType = true) :
    dependsOn w w (typesOf w) = true := by
  unfold dependsOn
  rw [hi, bne_iff_ne.mpr hw]
  simp only [BEq.rfl, Bool.or_true, Bool.true_and]

variable (imem : BitVec 32 → BitVec 32)

/-- An instruction goes on to MEM together with an identical one behind it exactly if it
repeats. -/
theorem repeats_iff (h : Flow s) :
    ((s.clock imem false).idEx.instr = s.idEx.instr ∧ s.idEx.instr ≠ 0 ∧ s.idEx.valid = true) ↔
      Repeats s := by
  rw [h.exValid]
  constructor
  · rintro ⟨heq, hne, hany⟩
    obtain ⟨-, hclock⟩ | ⟨hds, hclock⟩ := clock_idEx (s := s) imem
    · rw [hclock] at heq
      exact absurd heq.symm hne
    · rw [hclock] at heq
      have hsame : s.ifId.instr = s.idEx.instr := heq
      have htypes : s.exeTypes = typesOf s.idEx.instr := h.typed.ex.resolve_left hne
      have hctl : s.control.types = typesOf s.idEx.instr := by rw [control_types, hsame]
      rcases typesOf_any hany with hr | hi | hj
      · have hty : s.control.types.isRType = true := by rw [hctl]; exact hr
        have hdep := (not_dependsOn hds (Or.inr hty)).1
        rw [htypes, hsame, dependsOn_r hr] at hdep
        exact ⟨hsame, hr, hdep.1, hdep.2⟩
      · have hty : s.control.types.isIType = true := by rw [hctl]; exact hi
        have hdep := (not_dependsOn hds (Or.inl hty)).1
        rw [htypes, hsame, dependsOn_i hne hi] at hdep
        exact absurd hdep.symm Bool.false_ne_true
      · exact absurd (hsame.symm.trans (h.held hj)) hne
  · intro hr
    obtain ⟨hne, hi, -⟩ := typesOf_isRType _ hr.isRType
    have htypes : s.exeTypes = typesOf s.idEx.instr := h.typed.ex.resolve_left hne
    obtain ⟨hmem, hwb⟩ := h.independent (Or.inr hr.isRType)
    have hself : dependsOn s.idEx.instr s.idEx.instr (typesOf s.idEx.instr) = false :=
      (dependsOn_r hr.isRType).mpr ⟨hr.rs, hr.rt⟩
    have hds : s.dataStall false = true := by
      unfold Top.dataStall
      rw [hr.same, htypes, hself, hmem, hwb]
      simp
    obtain ⟨hds', -⟩ | ⟨-, hclock⟩ := clock_idEx (s := s) imem
    · exact absurd (hds'.symm.trans hds) Bool.false_ne_true
    · refine ⟨?_, hne, ?_⟩
      · rw [hclock]
        exact hr.same
      · unfold Types.any
        rw [hr.isRType]
        rfl

end Flow

/-! ## The whole run -/

section Run

variable {imem : BitVec 32 → BitVec 32} {s : Top}

/-- The first instruction reaches WB later than that. -/
theorem not_retired_early (h : s.IsReset) {t : Nat} (ht : t < 2) :
    (s.run imem t).retired = false := by
  have hcases : t = 0 ∨ t = 1 := by omega
  rcases hcases with rfl | rfl
  · show (s.memWb.valid && s.memWb.instr != 0) = false
    rw [h.memWb]
    rfl
  · show (s.exMem.valid && s.exMem.instr != 0) = false
    rw [h.exMem]
    rfl

/-- A word that repeats gets no `run (1)` two clocks later. -/
theorem missed_add_two (h : s.IsReset) (u : Nat) :
    ((s.run imem (u + 2)).retired = true ∧ (s.run imem (u + 2)).runsIss = false) ↔
      Repeats (s.run imem u) := by
  have hret : (s.run imem (u + 2)).retired =
      ((s.run imem u).idEx.valid && (s.run imem u).idEx.instr != 0) := rfl
  have hmem : (s.run imem (u + 2)).exMem.instr =
      ((s.run imem u).clock imem false).idEx.instr := rfl
  have hwb : (s.run imem (u + 2)).memWb.instr = (s.run imem u).idEx.instr := rfl
  rw [runsIss_eq (flow_run h imem (u + 2)), hret, hmem, hwb,
    ← repeats_iff imem (flow_run h imem u)]
  constructor
  · rintro ⟨hv, hne⟩
    rw [hv, Bool.true_and] at hne
    rw [Bool.and_eq_true, bne_iff_ne] at hv
    refine ⟨?_, hv.2, hv.1⟩
    simpa using hne
  · rintro ⟨heq, hne, hv⟩
    rw [hv, heq, bne_iff_ne.mpr hne]
    refine ⟨rfl, ?_⟩
    simp

/-- A `run (1)` is missing two clocks after a word has repeated, and nowhere else. -/
theorem missed_iff (h : s.IsReset) (t : Nat) :
    ((s.run imem t).retired = true ∧ (s.run imem t).runsIss = false) ↔
      ∃ u, t = u + 2 ∧ Repeats (s.run imem u) := by
  constructor
  · rintro ⟨hret, hruns⟩
    by_cases ht : t < 2
    · exact absurd ((not_retired_early h ht).symm.trans hret) Bool.false_ne_true
    · obtain ⟨u, rfl⟩ : ∃ u, t = u + 2 := ⟨t - 2, by omega⟩
      exact ⟨u, rfl, (missed_add_two h u).mp ⟨hret, hruns⟩⟩
  · rintro ⟨u, rfl, hr⟩
    exact (missed_add_two h u).mpr hr

instance (s : Top) : Decidable (Repeats s) :=
  decidable_of_iff
    (s.ifId.instr = s.idEx.instr ∧ (typesOf s.idEx.instr).isRType = true ∧
      rs s.idEx.instr ≠ rd s.idEx.instr ∧ rt s.idEx.instr ≠ rd s.idEx.instr)
    ⟨fun h => ⟨h.1, h.2.1, h.2.2.1, h.2.2.2⟩, fun h => ⟨h.same, h.isRType, h.rs, h.rt⟩⟩

theorem retired_of_runsIss (h : s.IsReset) (t : Nat) (hruns : (s.run imem t).runsIss = true) :
    (s.run imem t).retired = true := by
  rw [runsIss_eq (flow_run h imem t), Bool.and_eq_true] at hruns
  exact hruns.1

/-- After `n` clocks from reset, every retired instruction has had its `run (1)`, and there
have been as many calls as retirements, exactly if no instruction whose retirement falls
into these clocks has followed itself.  The simulator has executed one instruction a
call. -/
theorem runs_iff (h : s.IsReset) (sim : Sim) (n : Nat) :
    ((∀ t < n, (s.run imem t).retired = true → (s.run imem t).runsIss = true) ∧
        ((Bench.start s sim).run imem n).runs =
          Nat.count (fun t => (s.run imem t).retired = true) n ↔
      ∀ u, u + 2 < n → ¬ Repeats (s.run imem u)) ∧
      ∀ sim', ((Bench.start s sim).run imem n).sim = some sim' →
        sim' = cycles sim ((Bench.start s sim).run imem n).runs := by
  refine ⟨?_, run_sim imem s sim n⟩
  rw [run_runs, count_eq_iff (retired_of_runsIss h), and_self]
  constructor
  · intro hall u hu hr
    obtain ⟨hret, hruns⟩ := (missed_iff h (u + 2)).mpr ⟨u, rfl, hr⟩
    exact Bool.false_ne_true (hruns.symm.trans (hall _ hu hret))
  · intro hall t ht hret
    by_contra hruns
    obtain ⟨u, rfl, hr⟩ := (missed_iff h t).mp ⟨hret, Bool.eq_false_iff.mpr hruns⟩
    exact hall u ht hr

end Run

theorem isReset_cleared : Top.cleared.IsReset := ⟨rfl, rfl, rfl, rfl, rfl⟩

/-- A program with a loop, in which `ADD R2, R1, R1` waits for `R1`. -/
theorem runs_iff_stallLoop : ((Bench.start Top.cleared initMemory).run stallLoop 30).runs =
    Nat.count (fun t => (Top.cleared.run stallLoop t).retired = true) 30 := by
  have hnone : ∀ u < 28, ¬ Repeats (Top.cleared.run stallLoop u) := by decide +kernel
  exact ((runs_iff isReset_cleared initMemory 30).1.mpr fun u hu => hnone u (by omega)).2

/-- `ADD R3, R1, R2` twice. -/
def addTwice : BitVec 32 → BitVec 32 := fun i => if i < 2 then 0x00221820 else 0

/-- The first of the two gets no `run (1)`. -/
theorem runs_addTwice :
    ¬ ∀ (imem : BitVec 32 → BitVec 32) (s : Top) (sim : Sim) (n : Nat), s.IsReset →
      ((Bench.start s sim).run imem n).runs =
        Nat.count (fun t => (s.run imem t).retired = true) n := by
  intro hall
  have heq := hall addTwice Top.cleared initMemory 8 isReset_cleared
  rw [run_runs] at heq
  exact absurd heq (by decide +kernel)

end SimpleCpu.Mips.Textbook
