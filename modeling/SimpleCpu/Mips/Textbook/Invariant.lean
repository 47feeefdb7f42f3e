import SimpleCpu.Mips.Lockstep
import SimpleCpu.Mips.Textbook.Stages

/-!
# The invariant of the textbook pipeline

`Track` records which stages hold an instruction and how many have been written back.
`Inv` says what the registers hold in terms of the run of the simulator.
-/

namespace SimpleCpu.Mips.Textbook

open SimpleCpu.Mips.Isa SimpleCpu.Mips.Iss

/-! ## The run of the simulator -/

section Simulator

variable (sim : Sim) (i : Nat)

def pcAt : BitVec 32 := (cycles sim i).current.pc

def wordAt : BitVec 32 := (cycles sim i).memRead (pcAt sim i)

def regsAt : BitVec 5 → BitVec 32 := (cycles sim i).current.regs

/-- What the `i`-th instruction writes, and where. -/
def writtenAt : Option (BitVec 5 × BitVec 32) :=
  (decodeInstr (wordAt sim i)).bind fun x =>
    x.result (cycles sim i).memRead (pcAt sim i) (regsAt sim i)

end Simulator

/-- The simulator between two cycles of a program. -/
structure Steady (sim : Sim) (i : Nat) : Prop where
  next : (cycles sim i).next = (cycles sim i).current
  aligned : pcAt sim i &&& 3 = 0
  zero : regsAt sim i 0 = 0
  mem : (cycles sim i).mem = sim.mem

/-- An instruction of the class that starts between two cycles ends there. -/
theorem Steady.succ {sim : Sim} {i : Nat} (h : Steady sim i) {x : Instr}
    (hx : decodeInstr (wordAt sim i) = some x) (hc : isTextbook x = true) :
    Steady sim (i + 1) := by
  have hcycle : cycles sim (i + 1) = (cycles sim i).follow x := cycle_eq h.next hx
  refine ⟨?_, ?_, ?_, ?_⟩
  · rw [hcycle]
    rfl
  · unfold pcAt
    rw [hcycle]
    exact Instr.nextPc_aligned h.aligned _ x
  · unfold regsAt
    rw [hcycle]
    exact Instr.nextRegs_zero _ _ h.zero x
  · rw [hcycle, ← h.mem]
    cases x with
    | sw => simp [isTextbook] at hc
    | r | sh | i | lw | b | bz | j | jal => rfl

/-- Nothing of the class writes memory. -/
theorem Steady.wordAt_eq {sim : Sim} {i : Nat} (h : Steady sim i) :
    wordAt sim i = sim.memRead (pcAt sim i) := by
  unfold wordAt Sim.memRead
  rw [h.mem]

/-- The simulator executes nothing but supported instructions, all of them words of the
instruction memory. -/
structure Program (imem : BitVec 32 → BitVec 32) (sim : Sim) : Prop where
  next : sim.next = sim.current
  pc : sim.current.pc = 0
  zero : sim.current.regs 0 = 0
  text : ∀ pc : BitVec 32, pc &&& 3 = 0 → pc < 0x1FFC → sim.memRead pc = iMemBank imem pc
  inText : ∀ i, pcAt sim i < 0x1FFC
  inClass : ∀ i, ∃ x, decodeInstr (wordAt sim i) = some x ∧ isTextbook x = true

/-- The `i`-th instruction is `x`, and the simulator does what it says. -/
structure Step (sim : Sim) (i : Nat) (x : Instr) : Prop where
  encodes : Encodes (wordAt sim i) x
  inClass : isTextbook x = true
  written : writtenAt sim i = x.result (cycles sim i).memRead (pcAt sim i) (regsAt sim i)
  nextPc : pcAt sim (i + 1) = x.nextPc (pcAt sim i) (regsAt sim i)
  nextRegs : regsAt sim (i + 1) =
    x.nextRegs (cycles sim i).memRead (pcAt sim i) (regsAt sim i)

namespace Program

variable {imem : BitVec 32 → BitVec 32} {sim : Sim} (h : Program imem sim)

include h

theorem steady (i : Nat) : Steady sim i := by
  induction i with
  | zero =>
      refine ⟨h.next, ?_, h.zero, rfl⟩
      show sim.current.pc &&& 3 = 0
      rw [h.pc]
      decide
  | succ i ih =>
      obtain ⟨x, hx, hc⟩ := h.inClass i
      exact ih.succ hx hc

theorem step (i : Nat) : ∃ x, Step sim i x := by
  obtain ⟨x, hx, hc⟩ := h.inClass i
  have hcycle : cycles sim (i + 1) = (cycles sim i).follow x := cycle_eq (h.steady i).next hx
  refine ⟨x, encodes_of_decodeInstr hx, hc, ?_, ?_, ?_⟩
  · unfold writtenAt
    rw [hx]
    rfl
  · show (cycles sim (i + 1)).current.pc = _
    rw [hcycle]
    rfl
  · show (cycles sim (i + 1)).current.regs = _
    rw [hcycle]
    rfl

/-- The simulator executes the words that the pipeline fetches. -/
theorem fetched (i : Nat) : iMemBank imem (pcAt sim i) = wordAt sim i := by
  rw [(h.steady i).wordAt_eq, h.text _ (h.steady i).aligned (h.inText i)]

theorem wordAt_ne_zero (i : Nat) : wordAt sim i ≠ 0 := by
  obtain ⟨x, hx⟩ := h.step i
  exact word_ne_zero hx.encodes hx.inClass

/-- What does not leave the sequence is followed by the next word. -/
theorem pcAt_succ (i : Nat) (hn : isControl (op (wordAt sim i)) = false) :
    pcAt sim (i + 1) = pcAt sim i + 4 := by
  obtain ⟨x, hx⟩ := h.step i
  rw [hx.nextPc]
  have hl := (isControl_eq hx.encodes hx.inClass).symm.trans hn
  cases x with
  | r | i => rfl
  | b | j => exact absurd hl nofun
  | sh | lw | sw | bz | jal => exact absurd hx.inClass nofun

/-- The register file after the `i`-th instruction, from the one before it. -/
theorem regsAt_succ (i : Nat) :
    regsAt sim (i + 1) =
      match writtenAt sim i with
      | some (rd, value) => Function.update (regsAt sim i) rd value
      | none => regsAt sim i := by
  obtain ⟨x, hx⟩ := h.step i
  have hc := hx.inClass
  rw [hx.written, hx.nextRegs]
  cases x with
  | r | i =>
      simp only [isTextbook, Bool.and_eq_true, bne_iff_ne] at hc
      exact if_neg hc.2
  | b | j => rfl
  | sh | lw | sw | bz | jal => simp [isTextbook] at hc

end Program

/-! ## What is where -/

/-- How many instructions have left WB, and which stages hold one. -/
structure Track where
  n : Nat
  wb : Bool
  mem : Bool
  ex : Bool
  id : Bool

namespace Track

def empty : Track := ⟨0, false, false, false, false⟩

variable (T : Track)

/-- Index of the instruction in MEM, or of the next one to get there. -/
def iMem : Nat := T.n + T.wb.toNat

def iEx : Nat := T.iMem + T.mem.toNat

def iId : Nat := T.iEx + T.ex.toNat

def iIf : Nat := T.iId + T.id.toNat

/-- A clock, with the two stall signals. -/
def clock (dataStall controlStall : Bool) : Track where
  n := T.iMem
  wb := T.mem
  mem := T.ex
  ex := T.id && dataStall
  id := if !dataStall then T.id else controlStall

variable (d c : Bool)

@[simp] theorem clock_n : (T.clock d c).n = T.iMem := rfl

@[simp] theorem clock_iMem : (T.clock d c).iMem = T.iEx := rfl

@[simp] theorem clock_iEx : (T.clock d c).iEx = T.iId := rfl

/-- An instruction leaves ID unless its data is missing. -/
theorem clock_iId : (T.clock d c).iId = if d then T.iIf else T.iId := by
  cases d with
  | false =>
      show T.iId + (T.id && false).toNat = T.iId
      rw [Bool.and_false]
      rfl
  | true =>
      show T.iId + (T.id && true).toNat = T.iIf
      rw [Bool.and_true]
      rfl

end Track

/-- The type flags belong to the words they run beside. -/
structure Typed (s : Top) : Prop where
  ex : s.idEx.instr = 0 ∨ s.exeTypes = typesOf s.idEx.instr
  mem : s.exMem.instr = 0 ∨ s.memTypes = typesOf s.exMem.instr
  wb : s.memWb.instr = 0 ∨ s.wbTypes = typesOf s.memWb.instr

/-- What the stages hold. -/
structure Inv (sim : Sim) (T : Track) (s : Top) : Prop where
  regs : s.regFile = regsAt sim T.n
  typed : Typed s
  wbFull : T.wb = true → Done (wordAt sim T.n) (writtenAt sim T.n) s.memWb
  wbEmpty : T.wb = false → InertWb s.memWb
  memFull : T.mem = true →
    Passes (wordAt sim T.iMem) (writtenAt sim T.iMem) (pcAt sim T.iMem)
      (pcAt sim (T.iMem + 1)) s.exMem
  memEmpty : T.mem = false → InertMem s.exMem
  exFull : T.ex = true →
    Passes (wordAt sim T.iEx) (writtenAt sim T.iEx) (pcAt sim T.iEx)
      (pcAt sim (T.iEx + 1)) s.idEx.toMem
  exEmpty : T.ex = false → InertMem s.idEx.toMem
  idFull : T.id = true → InId s (wordAt sim T.iId) (pcAt sim T.iId)
  idEmpty : T.id = false → s.ifId.instr = 0
  fetchId : T.id = true → s.pc = pcAt sim T.iId + 4
  fetchEx : isControl (op s.idEx.instr) = true →
    T.id = false ∧ s.pc = pcAt sim T.iEx + 4
  fetchMem : isControl (op s.exMem.instr) = true →
    T.ex = false ∧ T.id = false ∧ s.pc = pcAt sim T.iMem + 4
  fetch : T.id = false → isControl (op s.idEx.instr) = false →
    isControl (op s.exMem.instr) = false → s.pc = pcAt sim T.iId
  pcId : T.id = true → s.pcId = pcAt sim T.iId
  pcEx : T.ex = true → s.pcEx = pcAt sim T.iEx
  pcMem : T.mem = true → s.pcMem = pcAt sim T.iMem
  pcWb : T.wb = true → s.pcWb = pcAt sim T.n

end SimpleCpu.Mips.Textbook
