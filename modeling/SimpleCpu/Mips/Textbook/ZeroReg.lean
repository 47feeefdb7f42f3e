import SimpleCpu.Mips.Textbook.Top

/-!
# Register 0 of the textbook pipeline

`RegFile` clears register 0 with a blocking assignment and writes back with a nonblocking
one, which takes effect later at the same edge.  A value written back to register 0 is
therefore read for one cycle, and cleared at the next edge.

* `clock_regRead_zero`: what a clock leaves in register 0.
* `regRead_zero_iff`: register 0 reads as zero in every cycle exactly where no value other
  than zero is written back to it.
* `instr_ne_zero_of_writesR0`: an all-zero word, and so a bubble, is never the writer.
-/

namespace SimpleCpu.Mips.Textbook

namespace Top

/-! ## The read ports -/

/-- `readdata1` and `readdata2`: both ports are the same assignment. -/
def regRead (s : Top) (readReg : BitVec 5) : BitVec 32 := s.regFile readReg

/-- ID passes on what the two ports read. -/
theorem issued_regRead (reset : Bool) (s : Top) :
    (s.issued reset).a = s.regRead (s.ifId.instr.extractLsb' 21 5) ∧
      (s.issued reset).b = s.regRead (s.ifId.instr.extractLsb' 16 5) :=
  ⟨rfl, rfl⟩

/-- WB is about to write a value other than zero to register 0. -/
structure WritesR0 (s : Top) : Prop where
  regWrite : s.memWb.regWrite = true
  writeReg : s.memWb.writeReg = 0
  wbData : s.memWb.wbData ≠ 0

section Clock

variable (imem : BitVec 32 → BitVec 32) (reset : Bool) (s : Top)

/-- A clock leaves the written value in register 0, or else zero. -/
theorem clock_regRead_zero :
    (s.clock imem reset).regRead 0 =
      if s.memWb.regWrite = true ∧ s.memWb.writeReg = 0 then s.memWb.wbData else 0 := by
  show s.regFileNext 0 = _
  unfold regFileNext
  cases s.memWb.regWrite with
  | false =>
      rw [if_neg Bool.false_ne_true, if_neg (fun h => Bool.false_ne_true h.1)]
      exact Function.update_self ..
  | true =>
      rw [if_pos rfl]
      by_cases hreg : s.memWb.writeReg = 0
      · rw [if_pos ⟨rfl, hreg⟩, hreg]
        exact Function.update_self ..
      · rw [if_neg (fun h => hreg h.2), Function.update_of_ne (Ne.symm hreg)]
        exact Function.update_self ..

theorem clock_regRead_zero_iff :
    (s.clock imem reset).regRead 0 = 0 ↔ ¬ s.WritesR0 := by
  rw [clock_regRead_zero]
  split
  next h => exact ⟨fun hz hw => hw.wbData hz, fun hw => not_not.mp fun hz => hw ⟨h.1, h.2, hz⟩⟩
  next h => exact ⟨fun _ hw => h ⟨hw.regWrite, hw.writeReg⟩, fun _ => rfl⟩

end Clock

/-! ## Reset -/

/-- `Top` after `n` clocks with `reset` high. -/
def resetFor (imem : BitVec 32 → BitVec 32) (s : Top) : Nat → Top
  | 0 => s
  | n + 1 => (resetFor imem s n).clock imem true

/-- Two clocks of reset clear register 0, whatever was about to be written. -/
theorem resetFor_regRead_zero (imem : BitVec 32 → BitVec 32) (s : Top) (n : Nat) :
    (s.resetFor imem (n + 2)).regRead 0 = 0 := by
  refine (clock_regRead_zero_iff imem true (s.resetFor imem (n + 1))).mpr fun hw => ?_
  have hempty : (s.resetFor imem (n + 1)).memWb = {} := rfl
  have hwrite := hw.regWrite
  rw [hempty] at hwrite
  exact Bool.false_ne_true hwrite

/-! ## Bubbles -/

/-- A stage that holds the all-zero word writes nothing. -/
structure ZeroWordsInert (s : Top) : Prop where
  ex : s.idEx.instr = 0 → s.idEx.regWrite = false
  mem : s.exMem.instr = 0 → s.exMem.regWrite = false
  wb : s.memWb.instr = 0 → s.memWb.regWrite = false

theorem IsReset.zeroWordsInert {s : Top} (h : s.IsReset) : s.ZeroWordsInert where
  ex _ := by rw [h.idEx]
  mem _ := by rw [h.exMem]
  wb _ := by rw [h.memWb]

theorem ZeroWordsInert.clock {s : Top} (h : s.ZeroWordsInert) (imem : BitVec 32 → BitVec 32) :
    (s.clock imem false).ZeroWordsInert where
  ex := by
    show (if (false || !s.dataStall false) = true then ({} : IdEx) else s.issued false).instr = 0 →
      (if (false || !s.dataStall false) = true then ({} : IdEx) else s.issued false).regWrite =
        false
    split
    next => exact fun _ => rfl
    next =>
      intro hzero
      have hid : s.ifId.instr = 0 := hzero
      show s.control.regWrite = false
      unfold Top.control controlUnit
      rw [if_pos hid]
  mem := h.ex
  wb := h.mem

theorem run_zeroWordsInert (imem : BitVec 32 → BitVec 32) (s : Top) (n t : Nat) :
    ((s.resetFor imem (n + 1)).run imem t).ZeroWordsInert := by
  induction t with
  | zero => exact (isReset_clock imem (s.resetFor imem n)).zeroWordsInert
  | succ t ih => exact ih.clock imem

/-- In no run does a bubble or the all-zero word write to register 0. -/
theorem instr_ne_zero_of_writesR0 {imem : BitVec 32 → BitVec 32} {s : Top} {n t : Nat}
    (h : ((s.resetFor imem (n + 1)).run imem t).WritesR0) :
    ((s.resetFor imem (n + 1)).run imem t).memWb.instr ≠ 0 := by
  intro hzero
  have hinert := (run_zeroWordsInert imem s n t).wb hzero
  exact Bool.false_ne_true (hinert.symm.trans h.regWrite)

end Top

/-! ## Runs -/

/-- After two or more clocks of reset, register 0 reads as zero up to clock `t` exactly
where no value other than zero is written back to it before. -/
theorem regRead_zero_iff (imem : BitVec 32 → BitVec 32) (s : Top) (n t : Nat) :
    (∀ k ≤ t, ((s.resetFor imem (n + 2)).run imem k).regRead 0 = 0) ↔
      ∀ k < t, ¬ ((s.resetFor imem (n + 2)).run imem k).WritesR0 := by
  constructor
  · intro h k hk
    exact (Top.clock_regRead_zero_iff imem false _).mp (h (k + 1) hk)
  · intro h k hk
    cases k with
    | zero => exact Top.resetFor_regRead_zero imem s n
    | succ k => exact (Top.clock_regRead_zero_iff imem false _).mpr (h k hk)

/-- `ADDI r0, r0, 5` and then all-zero words. -/
def addiR0 (i : BitVec 32) : BitVec 32 := if i = 0 then 0x20000005 else 0

/-- Five clocks after reset both read ports give 5 for register 0. -/
theorem addiR0_reads_five :
    ¬ ∀ (imem : BitVec 32 → BitVec 32) (s : Top) (n t : Nat),
      ((s.resetFor imem (n + 2)).run imem t).regRead 0 = 0 := by
  intro h
  have hfive : ((Top.cleared.resetFor addiR0 2).run addiR0 5).regRead 0 = 5 := by
    decide +kernel
  have hzero := h addiR0 Top.cleared 0 5
  rw [hfive] at hzero
  exact absurd hzero (by decide)

end SimpleCpu.Mips.Textbook
