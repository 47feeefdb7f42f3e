import SimpleCpu.CoSim.Bench
import SimpleCpu.RiscV.Isa
import SimpleCpu.RiscV.IssCorrect

/-!
# Co-simulation

The testbench lets the simulator execute one instruction and hands what the pipeline has
retired to one of six `compare` functions of `sim.c`.  Each compares its arguments in turn,
clears `RUN_BIT` at the first that differs, and moves `prev_pc` on if none does.

`session_sound`: what passes all comparisons is what the simulator has executed.
-/

namespace SimpleCpu.RiscV.CoSim

open SimpleCpu.Bits SimpleCpu.CoSim SimpleCpu.Iss SimpleCpu.RiscV.Iss

/-! ## State -/

/-- The simulator and `prev_pc`. -/
structure Checker where
  sim : Sim
  prevPc : BitVec 32

/-- `init`, for the program that the files hold. -/
def init (preloadArchRegs : Bool) (words : List (BitVec 32 × BitVec 32)) : Checker where
  sim := loadProgram (initMemory preloadArchRegs) words
  prevPc := 0x2000

/-- `run (1)`; `none` is `exit`. -/
def Checker.run (c : Checker) : Option Checker :=
  if c.sim.runBit = false then none else some { c with sim := cycle c.sim }

/-! ## Comparisons -/

/-- What the messages of a comparison name. -/
inductive Mismatch where
  | pc | instr | rd | rs1 | rs2 | rdVal | rs1Val | rs2Val
  deriving DecidableEq, Repr

namespace Checker

variable (c : Checker)

/-- The end of a comparison that succeeds. -/
def agreed : Checker := { c with prevPc := c.sim.current.pc }

/-- How a `compare` function ends, from its tests.  The result `none` is the return
value 1. -/
def check (tests : List (Mismatch × BitVec 32 × BitVec 32)) : Option Mismatch × Checker :=
  verdict tests c.agreed { c with sim := { c.sim with runBit := false } }

def rdModel : BitVec 32 := c.sim.instrOpcode >>> 7 &&& 0x1F

def rs1Model : BitVec 32 := c.sim.instrOpcode >>> 15 &&& 0x1F

def rs2Model : BitVec 32 := c.sim.instrOpcode >>> 20 &&& 0x1F

/-- `CURRENT_STATE.REGS[i]` -/
def val (i : BitVec 32) : BitVec 32 := c.sim.current.reg i

/-- `compare_r`.  A source that is the destination has been read before the write. -/
def compareR (pc instr rd rs1 rs2 rdVal rs1Val rs2Val : BitVec 32) :
    Option Mismatch × Checker :=
  let rs1Val := if rs1 = rd then rdVal else rs1Val
  let rs2Val := if rs2 = rd then rdVal else rs2Val
  c.check [(.pc, c.prevPc, pc), (.instr, instr, c.sim.instrOpcode), (.rd, rd, c.rdModel),
    (.rs1, rs1, c.rs1Model), (.rs2, rs2, c.rs2Model), (.rdVal, rdVal, c.val c.rdModel),
    (.rs1Val, rs1Val, c.val c.rs1Model), (.rs2Val, rs2Val, c.val c.rs2Model)]

/-- `compare_i` -/
def compareI (pc instr rd rs1 rdVal rs1Val : BitVec 32) : Option Mismatch × Checker :=
  let rs1Val := if rs1 = rd then rdVal else rs1Val
  c.check [(.pc, c.prevPc, pc), (.instr, instr, c.sim.instrOpcode), (.rs1, rs1, c.rs1Model),
    (.rd, rd, c.rdModel), (.rdVal, rdVal, c.val c.rdModel),
    (.rs1Val, rs1Val, c.val c.rs1Model)]

/-- What `compare_s` and `compare_b` have in common: all of it. -/
def compareSources (pc instr rs1 rs2 rs1Val rs2Val : BitVec 32) :
    Option Mismatch × Checker :=
  c.check [(.pc, c.prevPc, pc), (.instr, instr, c.sim.instrOpcode), (.rs1, rs1, c.rs1Model),
    (.rs2, rs2, c.rs2Model), (.rs2Val, rs2Val, c.val c.rs2Model),
    (.rs1Val, rs1Val, c.val c.rs1Model)]

/-- `compare_s` -/
def compareS (pc instr rs1 rs2 rs1Val rs2Val : BitVec 32) : Option Mismatch × Checker :=
  c.compareSources pc instr rs1 rs2 rs1Val rs2Val

/-- `compare_b` -/
def compareB (pc instr rs1 rs2 rs1Val rs2Val : BitVec 32) : Option Mismatch × Checker :=
  c.compareSources pc instr rs1 rs2 rs1Val rs2Val

/-- What `compare_u` and `compare_j` have in common: all of it. -/
def compareDest (pc instr rd rdVal : BitVec 32) : Option Mismatch × Checker :=
  c.check [(.pc, c.prevPc, pc), (.instr, instr, c.sim.instrOpcode), (.rd, rd, c.rdModel),
    (.rdVal, rdVal, c.val c.rdModel)]

/-- `compare_u` -/
def compareU (pc instr rd rdVal : BitVec 32) : Option Mismatch × Checker :=
  c.compareDest pc instr rd rdVal

/-- `compare_j` -/
def compareJ (pc instr rd rdVal : BitVec 32) : Option Mismatch × Checker :=
  c.compareDest pc instr rd rdVal

end Checker

/-- A call of one of the functions, with its arguments. -/
inductive Call where
  | r (pc instr rd rs1 rs2 rdVal rs1Val rs2Val : BitVec 32)
  | i (pc instr rd rs1 rdVal rs1Val : BitVec 32)
  | s (pc instr rs1 rs2 rs1Val rs2Val : BitVec 32)
  | b (pc instr rs1 rs2 rs1Val rs2Val : BitVec 32)
  | u (pc instr rd rdVal : BitVec 32)
  | j (pc instr rd rdVal : BitVec 32)

def Call.apply (c : Checker) : Call → Option Mismatch × Checker
  | .r pc instr rd rs1 rs2 rdVal rs1Val rs2Val =>
      c.compareR pc instr rd rs1 rs2 rdVal rs1Val rs2Val
  | .i pc instr rd rs1 rdVal rs1Val => c.compareI pc instr rd rs1 rdVal rs1Val
  | .s pc instr rs1 rs2 rs1Val rs2Val => c.compareS pc instr rs1 rs2 rs1Val rs2Val
  | .b pc instr rs1 rs2 rs1Val rs2Val => c.compareB pc instr rs1 rs2 rs1Val rs2Val
  | .u pc instr rd rdVal => c.compareU pc instr rd rdVal
  | .j pc instr rd rdVal => c.compareJ pc instr rd rdVal

/-- Iterations of `run (1)` and a comparison, with what the comparisons report. -/
def Checker.session : Checker → List Call → Option (List (Option Mismatch) × Checker)
  | c, [] => some ([], c)
  | c, x :: xs => do
      let c ← c.run
      let (m, c) := x.apply c
      let (ms, c) ← c.session xs
      return (m :: ms, c)

/-! ## Soundness -/

/-- The arguments describe the cycle that the simulator executes in the state `sim`. -/
inductive Describes (sim : Sim) : Call → Prop
  | r {rs1Val rs2Val : BitVec 32} :
      Describes sim (.r sim.current.pc (sim.memRead sim.current.pc)
        ((Isa.rd (sim.memRead sim.current.pc)).setWidth 32)
        ((Isa.rs1 (sim.memRead sim.current.pc)).setWidth 32)
        ((Isa.rs2 (sim.memRead sim.current.pc)).setWidth 32)
        ((cycle sim).current.regs (Isa.rd (sim.memRead sim.current.pc))) rs1Val rs2Val)
  | i {rs1Val : BitVec 32} :
      Describes sim (.i sim.current.pc (sim.memRead sim.current.pc)
        ((Isa.rd (sim.memRead sim.current.pc)).setWidth 32)
        ((Isa.rs1 (sim.memRead sim.current.pc)).setWidth 32)
        ((cycle sim).current.regs (Isa.rd (sim.memRead sim.current.pc))) rs1Val)
  | s {rs1Val rs2Val : BitVec 32} :
      Describes sim (.s sim.current.pc (sim.memRead sim.current.pc)
        ((Isa.rs1 (sim.memRead sim.current.pc)).setWidth 32)
        ((Isa.rs2 (sim.memRead sim.current.pc)).setWidth 32) rs1Val rs2Val)
  | b {rs1Val rs2Val : BitVec 32} :
      Describes sim (.b sim.current.pc (sim.memRead sim.current.pc)
        ((Isa.rs1 (sim.memRead sim.current.pc)).setWidth 32)
        ((Isa.rs2 (sim.memRead sim.current.pc)).setWidth 32) rs1Val rs2Val)
  | u :
      Describes sim (.u sim.current.pc (sim.memRead sim.current.pc)
        ((Isa.rd (sim.memRead sim.current.pc)).setWidth 32)
        ((cycle sim).current.regs (Isa.rd (sim.memRead sim.current.pc))))
  | j :
      Describes sim (.j sim.current.pc (sim.memRead sim.current.pc)
        ((Isa.rd (sim.memRead sim.current.pc)).setWidth 32)
        ((cycle sim).current.regs (Isa.rd (sim.memRead sim.current.pc))))

section Cycle

theorem instrOpcode_ite {p : Prop} [Decidable p] {w : BitVec 32} {s t : Sim}
    (hs : p → s.instrOpcode = w) (ht : ¬ p → t.instrOpcode = w) :
    (if p then s else t).instrOpcode = w := by
  by_cases h : p
  · rw [if_pos h]
    exact hs h
  · rw [if_neg h]
    exact ht h

variable (s : Sim)

theorem executeR_instrOpcode (rs1 rs2 rd funct7 funct3 : BitVec 32) :
    (executeR s rs1 rs2 rd funct7 funct3).instrOpcode = s.instrOpcode := by
  unfold executeR
  repeat' refine instrOpcode_ite (fun _ => ?_) fun _ => ?_
  all_goals rfl

theorem executeI_instrOpcode (funct3 opcode rs1 rd imm : BitVec 32) :
    (executeI s funct3 opcode rs1 rd imm).instrOpcode = s.instrOpcode := by
  unfold executeI
  repeat' refine instrOpcode_ite (fun _ => ?_) fun _ => ?_
  all_goals rfl

theorem executeS_instrOpcode (funct3 rs1 rs2 imm : BitVec 32) :
    (executeS s funct3 rs1 rs2 imm).instrOpcode = s.instrOpcode := by
  unfold executeS
  repeat' refine instrOpcode_ite (fun _ => ?_) fun _ => ?_
  all_goals rfl

theorem executeB_instrOpcode (funct3 rs1 rs2 imm : BitVec 32) :
    (executeB s funct3 rs1 rs2 imm).instrOpcode = s.instrOpcode := by
  unfold executeB
  repeat' refine instrOpcode_ite (fun _ => ?_) fun _ => ?_
  all_goals rfl

theorem executeU_instrOpcode (opcode rd imm : BitVec 32) :
    (executeU s opcode rd imm).instrOpcode = s.instrOpcode := by
  unfold executeU
  repeat' refine instrOpcode_ite (fun _ => ?_) fun _ => ?_
  all_goals rfl

theorem executeJ_instrOpcode (rd imm : BitVec 32) :
    (executeJ s rd imm).instrOpcode = s.instrOpcode := by
  unfold executeJ
  repeat' refine instrOpcode_ite (fun _ => ?_) fun _ => ?_
  all_goals rfl

/-- `instr_opcode` is the word that the last cycle has executed. -/
theorem cycle_instrOpcode : (cycle s).instrOpcode = s.memRead s.current.pc := by
  show (processInstruction s).instrOpcode = _
  unfold processInstruction
  dsimp only
  cases decodeInstrType (s.memRead s.current.pc) with
  | none => rfl
  | some t =>
      cases t with
      | r => exact executeR_instrOpcode _ _ _ _ _ _
      | i => exact executeI_instrOpcode _ _ _ _ _ _
      | s => exact executeS_instrOpcode _ _ _ _ _
      | b => exact executeB_instrOpcode _ _ _ _ _
      | u => exact executeU_instrOpcode _ _ _ _
      | j => exact executeJ_instrOpcode _ _ _

end Cycle

section Session

theorem cycles_cycle (s : Sim) (i : Nat) : cycles (cycle s) i = cycles s (i + 1) := by
  induction i with
  | zero => rfl
  | succ i ih => exact congrArg cycle ih

variable {c c' : Checker}

/-- A comparison that succeeds has found the values equal, and has moved `prev_pc` on. -/
theorem check_eq_none_iff {tests : List (Mismatch × BitVec 32 × BitVec 32)} :
    c.check tests = (none, c') ↔ (∀ t ∈ tests, t.2.1 = t.2.2) ∧ c' = c.agreed :=
  verdict_eq_none_iff

theorem run_some (h : c.run = some c') :
    c.sim.runBit = true ∧ c' = { c with sim := cycle c.sim } := by
  unfold Checker.run at h
  split at h
  next => exact absurd h nofun
  next hrun => exact ⟨by simpa using hrun, (Option.some.inj h).symm⟩

/-- Between two iterations `prev_pc` is where the simulator is. -/
def Checker.Synced (c : Checker) : Prop := c.prevPc = c.sim.current.pc

/-- One iteration whose comparison succeeds. -/
theorem apply_none {x : Call} (hc : c.Synced)
    (h : x.apply { c with sim := cycle c.sim } = (none, c')) :
    Describes c.sim x ∧ c'.Synced ∧ c'.sim = cycle c.sim := by
  have hinstr := cycle_instrOpcode c.sim
  have hval : ∀ r : BitVec 5, (cycle c.sim).current.reg (r.setWidth 32) =
      (cycle c.sim).current.regs r := fun r => reg_field _ r
  cases x <;>
    obtain ⟨htests, rfl⟩ := check_eq_none_iff.mp h <;>
    simp only [List.forall_mem_cons, Checker.rdModel, Checker.rs1Model, Checker.rs2Model,
      Checker.val, hinstr, field_rd, field_rs1, field_rs2, hval] at htests
  case r =>
    obtain ⟨hpc, rfl, rfl, rfl, rfl, rfl, -⟩ := htests
    obtain rfl := hc.symm.trans hpc
    exact ⟨.r, rfl, rfl⟩
  case i =>
    obtain ⟨hpc, rfl, rfl, rfl, rfl, -⟩ := htests
    obtain rfl := hc.symm.trans hpc
    exact ⟨.i, rfl, rfl⟩
  case s =>
    obtain ⟨hpc, rfl, rfl, rfl, -⟩ := htests
    obtain rfl := hc.symm.trans hpc
    exact ⟨.s, rfl, rfl⟩
  case b =>
    obtain ⟨hpc, rfl, rfl, rfl, -⟩ := htests
    obtain rfl := hc.symm.trans hpc
    exact ⟨.b, rfl, rfl⟩
  case u =>
    obtain ⟨hpc, rfl, rfl, rfl, -⟩ := htests
    obtain rfl := hc.symm.trans hpc
    exact ⟨.u, rfl, rfl⟩
  case j =>
    obtain ⟨hpc, rfl, rfl, rfl, -⟩ := htests
    obtain rfl := hc.symm.trans hpc
    exact ⟨.j, rfl, rfl⟩

/-- A session is an iteration and another session. -/
theorem session_cons {x : Call} {xs : List Call} {ms : List (Option Mismatch)}
    (h : c.session (x :: xs) = some (ms, c')) :
    ∃ ms', c.sim.runBit = true ∧
      (x.apply { c with sim := cycle c.sim }).2.session xs = some (ms', c') ∧
      ms = (x.apply { c with sim := cycle c.sim }).1 :: ms' := by
  obtain ⟨c₁, hrun, h⟩ := Option.bind_eq_some_iff.mp h
  obtain ⟨hbit, rfl⟩ := run_some hrun
  obtain ⟨⟨ms', c₂⟩, hsession, h⟩ := Option.bind_eq_some_iff.mp h
  obtain ⟨rfl, rfl⟩ := Prod.mk.inj (Option.some.inj h)
  exact ⟨ms', hbit, hsession, rfl⟩

/-- From any state in which `prev_pc` is where the simulator is. -/
theorem session_describes {xs : List Call} {ms : List (Option Mismatch)} (hc : c.Synced)
    (h : c.session xs = some (ms, c')) (hms : ∀ m ∈ ms, m = none) :
    ∀ (i : Nat) (hi : i < xs.length), Describes (cycles c.sim i) xs[i] := by
  induction xs generalizing c ms with
  | nil => exact fun i hi => absurd hi (Nat.not_lt_zero i)
  | cons x xs ih =>
      obtain ⟨ms', -, hsession, rfl⟩ := session_cons h
      rw [List.forall_mem_cons] at hms
      obtain ⟨hfirst, hrest⟩ := hms
      obtain ⟨hx, hsynced, hsim⟩ := apply_none hc (Prod.ext hfirst rfl)
      intro i hi
      cases i with
      | zero => exact hx
      | succ i =>
          have hnext := ih hsynced hsession hrest i (Nat.lt_of_succ_lt_succ hi)
          rw [hsim, cycles_cycle] at hnext
          exact hnext

end Session

theorem init_synced (preload : Bool) (words : List (BitVec 32 × BitVec 32)) :
    (init preload words).Synced := by
  have hcurrent : ∀ s : Sim, (loadProgram s words).current = s.current := by
    induction words with
    | nil => exact fun s => rfl
    | cons word words ih => exact fun s => ih (s.memWrite word.1 word.2)
  show 0x2000 = (loadProgram (initMemory preload) words).current.pc
  rw [hcurrent]
  rfl

/-- In a session from the initial state in which every comparison succeeds, the arguments of
the `i`-th comparison describe what the simulator has executed in its `i`-th cycle. -/
theorem session_sound {preload : Bool} {words : List (BitVec 32 × BitVec 32)}
    {xs : List Call} {ms : List (Option Mismatch)} {c' : Checker}
    (h : (init preload words).session xs = some (ms, c')) (hms : ∀ m ∈ ms, m = none)
    (i : Nat) (hi : i < xs.length) :
    Describes (cycles (loadProgram (initMemory preload) words) i) xs[i] :=
  session_describes (init_synced preload words) h hms i hi

/-- `ADDI x1, x0, 5` and `ADD x2, x1, x1`. -/
theorem session_sound_add :
    Describes (cycles (loadProgram (initMemory false) [(0x2000, 0x00500093),
      (0x2004, 0x00108133)]) 1) (.r 0x2004 0x00108133 2 1 1 10 5 5) := by
  have hrun : ((init false [(0x2000, 0x00500093), (0x2004, 0x00108133)]).session
      [.i 0x2000 0x00500093 1 0 5 0, .r 0x2004 0x00108133 2 1 1 10 5 5]).map Prod.fst =
      some [none, none] := by
    decide +kernel
  obtain ⟨⟨ms, c'⟩, hsession, rfl⟩ := Option.map_eq_some_iff.mp hrun
  exact session_sound hsession (by decide) 1 (by decide)

end SimpleCpu.RiscV.CoSim
