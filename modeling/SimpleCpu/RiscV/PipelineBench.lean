import SimpleCpu.CoSim.Bench
import SimpleCpu.RiscV.CoSim
import SimpleCpu.RiscV.DecodeAgreement
import SimpleCpu.RiscV.IssFrame
import SimpleCpu.RiscV.Loader

/-!
# The testbench of the pipeline

The testbench carries the fields of an instruction beside the pipeline, in registers that
are never flushed.  At every rising edge with `instr_retired` it runs the simulator for one
instruction and calls the `compare` function of the format.  It finishes with the 200th.

* `Carried`: what the testbench has in the write-back stage belongs to the instruction that
  is retired, and nothing else changes the register file.
* `Compared.apply_iff`: a comparison succeeds exactly if address, word and all registers
  agree, although it looks at no more than three of them.
* `test_running_iff`, `test_passed_iff`: the test is exact.
-/

namespace SimpleCpu.RiscV.PipelineBench

open SimpleCpu.CoSim SimpleCpu.Rtl SimpleCpu.Pipeline SimpleCpu.RiscV.Isa SimpleCpu.RiscV.Iss
open SimpleCpu.RiscV.CoSim

/-! ## The testbench -/

/-- What the testbench keeps of a stage beside address and word. -/
structure Fields where
  isRType : Bool
  isIType : Bool
  isSType : Bool
  isBType : Bool
  isUType : Bool
  isJType : Bool
  rd : BitVec 5
  rs1 : BitVec 5
  rs2 : BitVec 5

/-- The signals tapped from the issue stage. -/
def Fields.ofInstr (instr : Word) : Fields :=
  let d := decode instr
  { isRType := d.isRType, isIType := d.isIType, isSType := d.isSType
    isBType := d.isBType, isUType := d.isUType, isJType := d.isJType
    rd := d.rd, rs1 := d.rs1, rs2 := d.rs2 }

/-- The comparison for the type of the instruction, with the values that `regFile` has for
its registers. -/
def Fields.call (f : Fields) (pc instr : Word) (regFile : BitVec 5 → Word) : Option Call :=
  let rd := f.rd.setWidth 32
  let rs1 := f.rs1.setWidth 32
  let rs2 := f.rs2.setWidth 32
  if f.isRType then
    some (.r pc instr rd rs1 rs2 (regFile f.rd) (regFile f.rs1) (regFile f.rs2))
  else if f.isIType then some (.i pc instr rd rs1 (regFile f.rd) (regFile f.rs1))
  else if f.isSType then some (.s pc instr rs1 rs2 (regFile f.rs1) (regFile f.rs2))
  else if f.isBType then some (.b pc instr rs1 rs2 (regFile f.rs1) (regFile f.rs2))
  else if f.isUType then some (.u pc instr rd (regFile f.rd))
  else if f.isJType then some (.j pc instr rd (regFile f.rd))
  else none

/-- `top_tb`, between two rising edges. -/
structure TopTb where
  t1 : Top
  ex : Fields
  mem : Fields
  wb : Fields
  instrCount : Nat

/-- What the message of a failed test names. -/
inductive Failure where
  | compare (m : Mismatch)
  | opcode
  deriving DecidableEq, Repr

namespace TopTb

variable (imem : Word → Word) (x : TopTb)

/-- One clock with `reset` low. -/
def clock : TopTb where
  t1 := x.t1.clock imem false
  ex := .ofInstr x.t1.iss.instr
  mem := x.ex
  wb := x.mem
  instrCount := if x.t1.wb.instrRetired then x.instrCount + 1 else x.instrCount

def run : Nat → TopTb
  | 0 => x
  | t + 1 => (run t).clock imem

/-- The comparison of a retired instruction.  The register file is read after the falling
edge has written it. -/
def compare (c : Checker) : Option Failure × Checker :=
  match x.wb.call x.t1.tb.pcWb x.t1.tb.instrWb x.t1.regFileNext with
  | some call => (call.apply c).map (Option.map .compare) id
  | none => (some .opcode, c)

theorem run_t1 (t : Nat) : (x.run imem t).t1 = x.t1.run imem t := by
  induction t with
  | zero => rfl
  | succ t ih => exact congrArg (Top.clock imem false) ih

end TopTb

def bench : Bench TopTb Checker Failure where
  sample x := x.t1.wb.instrRetired
  advance := Checker.run
  compare := TopTb.compare
  finish x _ := x.instrCount + 1 == 200

/-- The test after `n` clocks with `reset` low. -/
def test (imem : Word → Word) (x : TopTb) (c : Checker) (n : Nat) : Outcome Checker Failure :=
  bench.after (fun t => x.run imem t) c n

/-! ## The type of an instruction -/

section Types

variable {w : Word}

/-- The decoder's flags, by the type that the simulator finds. -/
structure Flags (f : Fields) (t : Option InstrType) : Prop where
  isRType : f.isRType = (t == some .r)
  isIType : f.isIType = (t == some .i)
  isSType : f.isSType = (t == some .s)
  isBType : f.isBType = (t == some .b)
  isUType : f.isUType = (t == some .u)
  isJType : f.isJType = (t == some .j)

theorem flags_ofInstr (w : Word) : Flags (.ofInstr w) (decodeInstrType w) := by
  have hrow : ∀ c : BitVec 7, (c == R_TYPE) = (decodeInstrType (c.setWidth 32) == some .r) ∧
      (c == I_TYPE_0 || c == I_TYPE_1) = (decodeInstrType (c.setWidth 32) == some .i) ∧
      (c == S_TYPE) = (decodeInstrType (c.setWidth 32) == some .s) ∧
      (c == B_TYPE) = (decodeInstrType (c.setWidth 32) == some .b) ∧
      (c == RiscV.AUIPC || c == RiscV.LUI) =
        (decodeInstrType (c.setWidth 32) == some .u) ∧
      (c == J_TYPE) = (decodeInstrType (c.setWidth 32) == some .j) := by
    decide +kernel
  obtain ⟨hr, hi, hs, hb, hu, hj⟩ := hrow (opcode w)
  rw [decodeInstrType_eq (w := w) rfl]
  exact ⟨hr, hi, hs, hb, hu, hj⟩

/-- A word that the issue stage takes for an instruction is one for the simulator. -/
theorem issueStage_valid_iff (iss : IssPipeReg) :
    (issueStage false iss).valid = true ↔ (decodeInstrType iss.instr).isSome = true := by
  obtain ⟨hr, hi, hs, hb, hu, hj⟩ := flags_ofInstr iss.instr
  have hvalid : (issueStage false iss).valid =
      (((decode iss.instr).isRType || (decode iss.instr).isIType ||
        (decode iss.instr).isSType || (decode iss.instr).isBType ||
        (decode iss.instr).isUType || (decode iss.instr).isJType) && !false) := rfl
  have hflags : ∀ t : Option InstrType, ((t == some .r || t == some .i || t == some .s ||
      t == some .b || t == some .u || t == some .j) && !false) = t.isSome := by
    intro t
    cases t with
    | none => rfl
    | some t => cases t <;> rfl
  rw [hvalid, show (decode iss.instr).isRType = _ from hr,
    show (decode iss.instr).isIType = _ from hi, show (decode iss.instr).isSType = _ from hs,
    show (decode iss.instr).isBType = _ from hb, show (decode iss.instr).isUType = _ from hu,
    show (decode iss.instr).isJType = _ from hj, hflags]

/-- What the control table lets write a register. -/
theorem rfEn_designated (h : (decode w).controls.rfEn = true) : designated w = some (rd w) := by
  obtain ⟨hr, hi, hs, hb, hu, hj⟩ := flags_ofInstr w
  have hS : ∀ fn : BitVec 3, (Controls.ofBits (controlS fn)).rfEn = false := by decide
  have hB : ∀ fn : BitVec 3, (Controls.ofBits (controlB fn)).rfEn = false := by decide
  have hcontrols : (decode w).controls = control (decode w).funct3 (decode w).funct7
    (decode w).op (decodeInstrType w == some .r) (decodeInstrType w == some .i)
      (decodeInstrType w == some .s) (decodeInstrType w == some .b)
      (decodeInstrType w == some .u) (decodeInstrType w == some .j) := by
    rw [← hr, ← hi, ← hs, ← hb, ← hu, ← hj]
    rfl
  rw [hcontrols] at h
  unfold designated
  cases ht : decodeInstrType w with
  | none =>
      rw [ht] at h
      exact absurd ((show (Controls.ofBits 0).rfEn = false by decide).symm.trans h)
        Bool.false_ne_true
  | some t =>
      rw [ht] at h
      cases t with
      | r | i | u | j => rfl
      | s => exact absurd ((hS _).symm.trans h) Bool.false_ne_true
      | b => exact absurd ((hB _).symm.trans h) Bool.false_ne_true

end Types

/-! ## One comparison -/

/-- The registers that are compared. -/
def compared (t : InstrType) (w : Word) : List (BitVec 5) :=
  match t with
  | .r => [rd w, rs1 w, rs2 w]
  | .i => [rd w, rs1 w]
  | .s | .b => [rs2 w, rs1 w]
  | .u | .j => [rd w]

section Compare

variable {c c' : Checker} {w pc : Word} {regFile : BitVec 5 → Word} {t : InstrType}

/-- A source that is the destination is compared with the same value. -/
theorem srcVal_eq (r d : BitVec 5) :
    (if r.setWidth 32 = (d.setWidth 32 : Word) then regFile d else regFile r) = regFile r := by
  split
  next h => rw [(Bits.setWidth_eq_iff (by decide) r d).mp h]
  next => rfl

/-- The comparison of a type. -/
def callOf (t : InstrType) (w pc : Word) (regFile : BitVec 5 → Word) : Call :=
  match t with
  | .r => .r pc w ((rd w).setWidth 32) ((rs1 w).setWidth 32) ((rs2 w).setWidth 32)
      (regFile (rd w)) (regFile (rs1 w)) (regFile (rs2 w))
  | .i => .i pc w ((rd w).setWidth 32) ((rs1 w).setWidth 32) (regFile (rd w)) (regFile (rs1 w))
  | .s => .s pc w ((rs1 w).setWidth 32) ((rs2 w).setWidth 32) (regFile (rs1 w)) (regFile (rs2 w))
  | .b => .b pc w ((rs1 w).setWidth 32) ((rs2 w).setWidth 32) (regFile (rs1 w)) (regFile (rs2 w))
  | .u => .u pc w ((rd w).setWidth 32) (regFile (rd w))
  | .j => .j pc w ((rd w).setWidth 32) (regFile (rd w))

theorem call_eq (ht : decodeInstrType w = some t) :
    (Fields.ofInstr w).call pc w regFile = some (callOf t w pc regFile) := by
  obtain ⟨hr, hi, hs, hb, hu, hj⟩ := flags_ofInstr w
  rw [ht] at hr hi hs hb hu hj
  unfold Fields.call
  rw [hr, hi, hs, hb, hu, hj]
  cases t <;> rfl

/-- It succeeds only for the word that the simulator has executed. -/
theorem instr_of_apply (h : (callOf t w pc regFile).apply c = (none, c')) :
    w = c.sim.instrOpcode := by
  cases t <;>
    exact ((check_eq_none_iff.mp h).1 _ (List.mem_cons_of_mem _ List.mem_cons_self))

/-- For this word it compares the values of the registers and nothing else. -/
theorem apply_iff (hinstr : c.sim.instrOpcode = w) :
    (callOf t w pc regFile).apply c = (none, c') ↔
      (c.prevPc = pc ∧ ∀ r ∈ compared t w, regFile r = c.sim.current.regs r) ∧
        c' = c.agreed := by
  have hval : ∀ r : BitVec 5, c.val (r.setWidth 32) = c.sim.current.regs r :=
    fun r => reg_field _ r
  cases t <;>
    refine check_eq_none_iff.trans (and_congr ?_ Iff.rfl) <;>
    simp only [List.forall_mem_cons, List.not_mem_nil, false_imp_iff, implies_true, and_true,
      true_and, compared, Checker.rdModel, Checker.rs1Model, Checker.rs2Model, hinstr,
      field_rd, field_rs1, field_rs2, hval, srcVal_eq]

/-- The register that an instruction may write is compared. -/
theorem mem_compared {r : BitVec 5} (ht : decodeInstrType w = some t)
    (hr : designated w = some r) : r ∈ compared t w := by
  unfold designated at hr
  rw [ht] at hr
  cases t with
  | s | b => exact absurd hr nofun
  | r | i | u | j =>
      rw [← Option.some.inj hr]
      exact List.mem_cons_self

/-- If two register files come from the same by a write to the register of the instruction,
then the registers that are compared decide whether they agree. -/
theorem eq_of_compared {regs regs' : BitVec 5 → Word} (ht : decodeInstrType w = some t)
    (hwr : ∀ r, regFile r ≠ regs r → designated w = some r)
    (hwr' : ∀ r, regs' r ≠ regs r → designated w = some r)
    (h : ∀ r ∈ compared t w, regFile r = regs' r) : regFile = regs' := by
  funext r
  by_cases hr : designated w = some r
  · exact h r (mem_compared ht hr)
  · rw [not_imp_comm.mp (hwr r) hr, not_imp_comm.mp (hwr' r) hr]

end Compare

/-! ## What the stages carry -/

/-- A stage with the fields of its word, if it is valid, or that writes no register. -/
structure Carries (valid rfEn : Bool) (d : BitVec 5) (f : Fields) (w : Word) : Prop where
  full : valid = true → (decodeInstrType w).isSome = true ∧
    (rfEn = true → designated w = some d) ∧ f = .ofInstr w
  empty : valid = false → rfEn = false

/-- All stages. -/
structure Carried (x : TopTb) : Prop where
  iss : x.t1.iss = {} ∨ x.t1.iss.instr = x.t1.tb.instrIss
  ex : Carries x.t1.ex.valid x.t1.ex.rfEn x.t1.ex.rd x.ex x.t1.tb.instrEx
  mem : Carries x.t1.mem.valid x.t1.mem.rfEn x.t1.mem.rd x.mem x.t1.tb.instrMem
  wb : Carries x.t1.wb.instrRetired x.t1.wb.rfEn x.t1.wb.rd x.wb x.t1.tb.instrWb
  zero : x.t1.regFile 0 = 0

section Carried

variable {imem : Word → Word} {x : TopTb}

theorem carries_reset (f : Fields) (w : Word) : Carries false false 0 f w where
  full hv := absurd hv Bool.false_ne_true
  empty _ := rfl

theorem carried_of_isReset (h : x.t1.IsReset) (hzero : x.t1.regFile 0 = 0) : Carried x where
  iss := Or.inl h.iss
  ex := by
    rw [h.ex]
    exact carries_reset _ _
  mem := by
    rw [h.mem]
    exact carries_reset _ _
  wb := by
    rw [h.wb]
    exact carries_reset _ _
  zero := hzero

/-- The issue stage, with the word that it decodes. -/
theorem carries_issueStage (iss : IssPipeReg) :
    Carries (issueStage false iss).valid (issueStage false iss).rfEn (issueStage false iss).rd
      (.ofInstr iss.instr) iss.instr where
  full hv := ⟨(issueStage_valid_iff iss).mp hv, fun hen => rfEn_designated hen, rfl⟩
  empty hv := by
    by_contra hen
    have hd : designated iss.instr = some _ := rfEn_designated (Bool.eq_true_of_not_eq_false hen)
    refine absurd (hv.symm.trans ((issueStage_valid_iff iss).mpr ?_)) Bool.false_ne_true
    unfold designated at hd
    cases ht : decodeInstrType iss.instr with
    | none =>
        rw [ht] at hd
        exact absurd hd nofun
    | some t => rfl

theorem Carried.clock (h : Carried x) : Carried (x.clock imem) where
  iss := by
    by_cases hflush : x.t1.flushIss false || x.t1.flushIncorrPredIss
    · exact Or.inl (if_pos (by rw [Bool.false_or, hflush]))
    · have hiss : (x.t1.clock imem false).iss = _ := if_neg (by simpa using hflush)
      refine Or.inr ?_
      show (x.t1.clock imem false).iss.instr = _
      rw [hiss]
      rfl
  ex := by
    show Carries (x.t1.clock imem false).ex.valid (x.t1.clock imem false).ex.rfEn
      (x.t1.clock imem false).ex.rd (.ofInstr x.t1.iss.instr) x.t1.tb.instrIss
    cases hflush : x.t1.flushEx || x.t1.flushIncorrPredEx with
    | true =>
        have hex : (x.t1.clock imem false).ex = {} := if_pos (by rw [Bool.false_or, hflush])
        rw [hex]
        exact carries_reset _ _
    | false =>
        have hex : (x.t1.clock imem false).ex = _ :=
          if_neg (by rw [Bool.false_or, hflush]; exact Bool.false_ne_true)
        rw [hex]
        have hcarries := carries_issueStage x.t1.iss
        rcases h.iss with hiss | hiss
        · have hbubble : (issueStage false x.t1.iss).valid = false := by
            rw [hiss]
            decide
          exact
            { full := fun hv => absurd (hbubble.symm.trans hv) Bool.false_ne_true
              empty := hcarries.empty }
        · rw [← hiss]
          exact hcarries
  mem := h.ex
  wb := h.mem
  zero := by
    show x.t1.regFileNext 0 = 0
    unfold Top.regFileNext
    split
    next =>
      rw [Function.update_apply]
      split
      next h0 =>
        unfold WbPipeReg.wrData
        rw [if_neg (not_not.mpr h0.symm)]
      next => exact h.zero
    next => exact h.zero

theorem Carried.run (h : Carried x) (t : Nat) : Carried (x.run imem t) := by
  induction t with
  | zero => exact h
  | succ t ih => exact ih.clock

/-- The write port serves the register of the retired instruction. -/
theorem Carried.written (h : Carried x) (hv : x.t1.wb.instrRetired = true) (r : BitVec 5)
    (hr : x.t1.regFileNext r ≠ x.t1.regFile r) : designated x.t1.tb.instrWb = some r := by
  obtain ⟨-, hd, -⟩ := h.wb.full hv
  unfold Top.regFileNext at hr
  split at hr
  next hen =>
    rw [hd hen, Option.some_inj]
    by_contra hne
    exact hr (Function.update_of_ne (Ne.symm hne) _ _)
  next => exact absurd rfl hr

/-- Without a retired instruction the registers stay as they are. -/
theorem Carried.kept (h : Carried x) (hv : x.t1.wb.instrRetired = false) :
    x.t1.regFileNext = x.t1.regFile := by
  unfold Top.regFileNext
  rw [h.wb.empty hv]
  rfl

end Carried

/-! ## Whole tests -/

/-- How many instructions are retired before clock `t`. -/
def retiredBefore (imem : Word → Word) (s : Top) (t : Nat) : Nat :=
  Nat.count (fun u => (s.run imem u).wb.instrRetired = true) t

theorem retiredBefore_succ (imem : Word → Word) (s : Top) (t : Nat) :
    retiredBefore imem s (t + 1) =
      retiredBefore imem s t + if (s.run imem t).wb.instrRetired then 1 else 0 := by
  unfold retiredBefore
  exact Nat.count_succ _ _

/-- The simulator between two instructions, at the one that is compared next, with the
registers of the pipeline. -/
structure Ready (c : Checker) (regFile : BitVec 5 → Word) : Prop where
  runBit : c.sim.runBit = true
  next : c.sim.next = c.sim.current
  prevPc : c.prevPc = c.sim.current.pc
  regs : regFile = c.sim.current.regs

/-- The pipeline and the simulator do the same in one instruction. -/
structure Same (s : Top) (sim : Sim) : Prop where
  pc : s.tb.pcWb = sim.current.pc
  instr : s.tb.instrWb = sim.memRead sim.current.pc
  regs : s.regFileNext = (cycle sim).current.regs

/-- The simulator after an instruction that has been compared. -/
def compareNext (c : Checker) : Checker := Checker.agreed { c with sim := cycle c.sim }

section Clock

variable {x : TopTb} {c c' : Checker}

/-- The call that a retired instruction leads to. -/
theorem Carried.compare_iff (h : Carried x) (hv : x.t1.wb.instrRetired = true) :
    ∃ t, decodeInstrType x.t1.tb.instrWb = some t ∧ ∀ c c', x.compare c = (none, c') ↔
      (callOf t x.t1.tb.instrWb x.t1.tb.pcWb x.t1.regFileNext).apply c = (none, c') := by
  obtain ⟨hsome, -, hf⟩ := h.wb.full hv
  obtain ⟨t, ht⟩ := Option.isSome_iff_exists.mp hsome
  refine ⟨t, ht, fun c c' => ?_⟩
  unfold TopTb.compare
  rw [hf, call_eq ht]
  dsimp only
  cases (callOf t x.t1.tb.instrWb x.t1.tb.pcWb x.t1.regFileNext).apply c with
  | mk m c₁ =>
      rw [Prod.map_apply, Prod.mk.injEq, Prod.mk.injEq, Option.map_eq_none_iff]
      rfl

/-- A comparison that starts from the registers of the simulator. -/
theorem Carried.agrees_iff (h : Carried x) (hv : x.t1.wb.instrRetired = true)
    (hc : Ready c x.t1.regFile) :
    bench.Agrees x c c' ↔ Same x.t1 c.sim ∧ c' = compareNext c := by
  obtain ⟨t, ht, hcompare⟩ := h.compare_iff hv
  have hrun : c.run = some { c with sim := cycle c.sim } := by
    unfold Checker.run
    rw [hc.runBit]
    rfl
  have hinstr := cycle_instrOpcode c.sim
  constructor
  · rintro ⟨c₁, hadv, hcmp⟩
    obtain rfl := Option.some.inj (hrun.symm.trans hadv)
    have happly := (hcompare _ _).mp hcmp
    have hw : x.t1.tb.instrWb = c.sim.memRead c.sim.current.pc :=
      (instr_of_apply happly).trans hinstr
    obtain ⟨⟨hpc, hregs⟩, hc'⟩ := (apply_iff (hinstr.trans hw.symm)).mp happly
    refine ⟨⟨hpc.symm.trans hc.prevPc, hw, ?_⟩, hc'⟩
    refine eq_of_compared ht (h.written hv) (fun r hr => ?_) hregs
    rw [hc.regs] at hr
    rw [hw]
    exact (frame_cycle hc.next).regs r hr
  · rintro ⟨⟨hpc, hw, hregs⟩, hc'⟩
    refine ⟨_, hrun, (hcompare _ _).mpr ?_⟩
    refine (apply_iff (hinstr.trans hw.symm)).mpr ⟨⟨hc.prevPc.trans hpc.symm, fun r _ => ?_⟩, hc'⟩
    rw [hregs]

/-- What has been compared is where the next comparison starts. -/
theorem Carried.ready_next (h : Carried x) (hv : x.t1.wb.instrRetired = true)
    (hc : Ready c x.t1.regFile) (hsame : Same x.t1 c.sim) :
    Ready (compareNext c) x.t1.regFileNext where
  runBit := by
    obtain ⟨hsome, -, -⟩ := h.wb.full hv
    show (cycle c.sim).runBit = true
    rw [(frame_cycle hc.next).runBit, hc.runBit, ← hsame.instr, hsome]
    rfl
  next := rfl
  prevPc := rfl
  regs := hsame.regs

end Clock

/-- The simulator at clock `t` of a test that goes on. -/
structure InTest (imem : Word → Word) (x : TopTb) (sim : Sim) (t : Nat) (c : Checker) : Prop where
  sim : c.sim = cycles sim (retiredBefore imem x.t1 t)
  ready : Ready c (x.t1.run imem t).regFile

section Test

variable {imem : Word → Word} {x : TopTb} {c : Checker} {sim : Sim} {n t : Nat}

theorem run_instrCount (imem : Word → Word) (x : TopTb) (t : Nat) :
    (x.run imem t).instrCount = x.instrCount + retiredBefore imem x.t1 t := by
  induction t with
  | zero => rfl
  | succ t ih =>
      rw [retiredBefore_succ, ← TopTb.run_t1, ← Nat.add_assoc, ← ih]
      show (if (x.run imem t).t1.wb.instrRetired then _ else _) = _
      split <;> rfl

/-- What is retired at clock `t` agrees with the simulator's cycle of that number. -/
def AgreesAt (imem : Word → Word) (s : Top) (sim : Sim) (t : Nat) : Prop :=
  Retirement imem s sim (retiredBefore imem s t) t

theorem same_iff (hv : (x.t1.run imem t).wb.instrRetired = true) :
    Same (x.t1.run imem t) (cycles sim (retiredBefore imem x.t1 t)) ↔
      AgreesAt imem x.t1 sim t :=
  ⟨fun h => ⟨⟨hv, rfl⟩, h.pc, h.instr, h.regs⟩, fun h => ⟨h.pc, h.instr, h.regs⟩⟩

/-- The result of every clock can be read off pipeline and simulator. -/
theorem Carried.decided (h : Carried x) :
    bench.Decided (fun t => x.run imem t) (InTest imem x sim) (AgreesAt imem x.t1 sim)
      fun y => y.instrCount + 1 == 200 where
  other t c hs hin := by
    have hs' : (x.t1.run imem t).wb.instrRetired = false := by
      rw [← TopTb.run_t1]
      exact hs
    have hkept := Carried.kept (h.run t) hs
    rw [TopTb.run_t1] at hkept
    refine ⟨?_, ?_⟩
    · rw [retiredBefore_succ, hs']
      exact hin.sim
    · show Ready c (x.t1.run imem t).regFileNext
      rw [hkept]
      exact hin.ready
  agrees t c hs hin hgood := by
    have hready := hin.ready
    rw [← TopTb.run_t1] at hready
    refine ⟨_, ((h.run t).agrees_iff hs hready).mpr ⟨?_, rfl⟩⟩
    rw [hin.sim, TopTb.run_t1]
    exact (same_iff hgood.retired).mpr hgood
  good t c c' hs hin hagrees := by
    have hready := hin.ready
    rw [← TopTb.run_t1] at hready
    obtain ⟨hsame, rfl⟩ := ((h.run t).agrees_iff hs hready).mp hagrees
    have hnext := (h.run t).ready_next hs hready hsame
    have hs' : (x.t1.run imem t).wb.instrRetired = true := by
      rw [← TopTb.run_t1]
      exact hs
    rw [TopTb.run_t1] at hsame hnext
    refine ⟨(same_iff hs').mp (hin.sim ▸ hsame), ?_, hnext⟩
    rw [retiredBefore_succ, hs']
    exact congrArg cycle hin.sim
  finish _ _ := rfl

theorem sampledBefore_eq :
    bench.sampledBefore (fun t => x.run imem t) t = retiredBefore imem x.t1 t := by
  unfold Bench.sampledBefore retiredBefore
  simp only [← TopTb.run_t1]
  rfl

theorem sample_eq : bench.sample (x.run imem t) = (x.t1.run imem t).wb.instrRetired := by
  rw [← TopTb.run_t1]
  rfl

theorem ended_iff (hcount : x.instrCount = 0) (t : Nat) :
    ((x.run imem t).instrCount + 1 == 200) = true ↔
      bench.sampledBefore (fun t => x.run imem t) t + 1 = 200 := by
  rw [beq_iff_eq, run_instrCount, hcount, Nat.zero_add, sampledBefore_eq]

/-- The testbench of a pipeline right after reset. -/
structure Starts (x : TopTb) (c : Checker) : Prop where
  reset : x.t1.IsReset
  zero : x.t1.regFile 0 = 0
  instrCount : x.instrCount = 0
  ready : Ready c x.t1.regFile

theorem Starts.inTest (h : Starts x c) : InTest imem x c.sim 0 c := ⟨rfl, h.ready⟩

theorem Starts.carried (h : Starts x c) : Carried x := carried_of_isReset h.reset h.zero

theorem test_running_iff (h : Starts x c) : (∃ c', test imem x c n = .running c') ↔
    retiredBefore imem x.t1 n < 200 ∧
      ∀ t < n, (x.t1.run imem t).wb.instrRetired = true → AgreesAt imem x.t1 c.sim t := by
  refine (h.carried.decided.quota_running_iff (by decide) (ended_iff h.instrCount)
    h.inTest).trans ?_
  rw [sampledBefore_eq]
  refine and_congr Iff.rfl (forall₂_congr fun t _ => ?_)
  rw [sample_eq]

theorem test_passed_iff (h : Starts x c) : test imem x c n = .passed ↔
    200 ≤ retiredBefore imem x.t1 n ∧
      ∀ t < n, (x.t1.run imem t).wb.instrRetired = true → retiredBefore imem x.t1 t < 200 →
        AgreesAt imem x.t1 c.sim t := by
  refine (h.carried.decided.quota_passed_iff (by decide) (ended_iff h.instrCount)
    h.inTest).trans ?_
  rw [sampledBefore_eq]
  refine and_congr Iff.rfl (forall₂_congr fun t _ => ?_)
  rw [sample_eq, sampledBefore_eq]

end Test

/-! ## The program in the files -/

/-- The registers that `boot_code` writes.  The plusarg `preload_arch_regs` does what the
switch of the same name does to the simulator. -/
def bootRegs (preloadArchRegs : Bool) : BitVec 5 → Word := fun i =>
  if preloadArchRegs then BitVec.ofNat 32 (i.toNat * 32 + i.toNat % 3) else 0

/-- `boot_code`, for the predictor. -/
def bootBpred (b : Bpred) : Bpred where
  bpred i := if i.toNat < 1024 then 0 else b.bpred i
  btb i := if i.toNat < 1024 then 0 else b.btb i

/-- `top_tb` when `reset` goes low, with what `init_dmem` and `boot_code` have written.  It
held `x` before. -/
def TopTb.booted (preloadArchRegs : Bool) (x : TopTb) : TopTb :=
  { x with
    t1 := { x.t1 with
      currPc := 0x2000, iss := {}, ex := {}, mem := {}, wb := {}
      regFile := bootRegs preloadArchRegs
      dmem := initDmem x.t1.dmem
      bpred := bootBpred x.t1.bpred }
    instrCount := 0 }

/-- `top_tb` on the program in the files, after `n` clocks out of reset. -/
def topTb (preloadArchRegs : Bool) (imem : Word → Word) (x : TopTb) (words : List (Word × Word))
    (n : Nat) : Outcome Checker Failure :=
  test (initImem imem words) (x.booted preloadArchRegs) (init preloadArchRegs words) n

section Files

variable {preload : Bool} {words : List (Word × Word)}

theorem bootRegs_zero (preload : Bool) : bootRegs preload 0 = 0 := by
  cases preload <;> rfl

theorem init_sim (preload : Bool) (words : List (Word × Word)) :
    (init preload words).sim = loadProgram (initMemory preload) words := rfl

theorem starts_booted (preload : Bool) (x : TopTb) (words : List (Word × Word)) :
    Starts (x.booted preload) (init preload words) where
  reset := ⟨rfl, rfl, rfl, rfl, rfl⟩
  zero := bootRegs_zero preload
  instrCount := rfl
  ready := by
    refine ⟨?_, ?_, init_synced preload words, ?_⟩ <;>
      rw [init_sim, loadProgram_eq] <;> rfl

/-- The pipeline and the simulator with its text start on the same program. -/
theorem boots_files (hl : Loadable words) (preload : Bool) (imem : Word → Word) (x : TopTb) :
    Boots (initImem imem words) (x.booted preload).t1
        (withText (initImem imem words) (init preload words).sim) ∧
      SameData (x.booted preload).t1
        (withText (initImem imem words) (init preload words).sim) := by
  refine ⟨⟨(starts_booted preload x words).reset, ?_, ?_, ?_, bootRegs_zero preload, ?_⟩, ?_⟩
  · rw [init_sim, loadProgram_eq]
    rfl
  · rw [init_sim, loadProgram_eq]
    rfl
  · rw [init_sim, loadProgram_eq]
    rfl
  · exact fun pc ha hlow hhigh => withText_fetch ⟨ha, hlow, hhigh⟩
  · exact fun addr ha hlt => (withText_data hlt).trans (hl.data preload x.t1.dmem ha hlt)

/-- A program in files, up to its `k`-th instruction. -/
structure SuitsFiles (preload : Bool) (words : List (Word × Word)) (k : Nat) : Prop where
  loadable : Loadable words
  suits : Suits (init preload words).sim k
  stays : ∀ i ≤ k, (cycles (init preload words).sim i).current.pc ∈ words.map Prod.fst

theorem SuitsFiles.loadedRun {k : Nat} (h : SuitsFiles preload words k) (imem : Word → Word) :
    LoadedRun (initImem imem words) (init preload words).sim k where
  next := by
    rw [init_sim, loadProgram_eq]
    rfl
  zero := by
    rw [init_sim, loadProgram_eq]
    exact bootRegs_zero preload
  suits := h.suits
  text i hi := h.loadable.initImem_fetch preload (h.stays i hi)

theorem SuitsFiles.suitedRun {k : Nat} (h : SuitsFiles preload words k) (imem : Word → Word)
    (x : TopTb) : SuitedRun (initImem imem words) (x.booted preload).t1
      (withText (initImem imem words) (init preload words).sim) k where
  boots := (boots_files h.loadable preload imem x).1
  sameData := (boots_files h.loadable preload imem x).2
  suits := (h.loadedRun imem).suits_withText

/-- For any files and whatever the memories and the predictor held before, the test goes on
exactly as long as every retired instruction agrees with the simulator in its address, its
word and all registers it leaves behind, and there are fewer than 200; and it passes exactly
if the first 200 do. -/
theorem bench_iff (preload : Bool) (imem : Word → Word) (x : TopTb) (words : List (Word × Word))
    (n : Nat) :
    let imem' := initImem imem words
    let s := (x.booted preload).t1
    let sim := (init preload words).sim
    ((∃ c, topTb preload imem x words n = .running c) ↔ retiredBefore imem' s n < 200 ∧
      ∀ t < n, (s.run imem' t).wb.instrRetired = true → AgreesAt imem' s sim t) ∧
    (topTb preload imem x words n = .passed ↔ 200 ≤ retiredBefore imem' s n ∧
      ∀ t < n, (s.run imem' t).wb.instrRetired = true → retiredBefore imem' s t < 200 →
        AgreesAt imem' s sim t) := by
  intro imem' s sim
  have h : Starts (x.booted preload) (init preload words) := starts_booted preload x words
  exact ⟨test_running_iff h, test_passed_iff h⟩

/-- `ADDI x1, x1, 1` and `JAL x2, -4`, as the files hold them. -/
def countForever : List (Word × Word) := [(0x2000, 0x00108093), (0x2004, 0xFFDFF16F)]

/-- The instruction at an address of the loop. -/
def countInstr (pc : Word) : Instr := if pc = 0x2000 then .i .add 1 1 1 else .jal 2 0xFFFFE

/-- The simulator goes round the loop for ever. -/
structure InLoop (s : Sim) : Prop where
  next : s.next = s.current
  mem : s.mem = (init true countForever).sim.mem
  zero : s.current.regs 0 = 0
  pc : s.current.pc = 0x2000 ∨ s.current.pc = 0x2004

theorem InLoop.decodeInstr {s : Sim} (h : InLoop s) :
    decodeInstr (s.memRead s.current.pc) = some (countInstr s.current.pc) := by
  have hread : s.memRead = (init true countForever).sim.memRead := by
    unfold Sim.memRead
    rw [h.mem]
  rw [hread]
  rcases h.pc with hpc | hpc <;> rw [hpc] <;> decide +kernel

end Files

end SimpleCpu.RiscV.PipelineBench
