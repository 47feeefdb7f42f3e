import Mathlib.Data.Nat.Count
import SimpleCpu.Mips.Refinement
import SimpleCpu.Mips.Textbook.Preservation

/-!
# The textbook pipeline retires what the simulator executes

`stalling_retires`: from reset, what reaches WB valid and nonzero is what the simulator
executes, in order, each once, with the same values written.
-/

namespace SimpleCpu.Mips.Textbook

open SimpleCpu.Mips.Isa SimpleCpu.Mips.Iss

/-! ## Retiring -/

/-- An instruction leaves WB. -/
def Top.retired (s : Top) : Bool := s.memWb.valid && s.memWb.instr != 0

/-- At clock `t` the pipeline retires its `k`-th instruction, counted from zero. -/
structure RetiresAt (imem : BitVec 32 → BitVec 32) (s : Top) (k t : Nat) : Prop where
  retired : (s.run imem t).retired = true
  count : Nat.count (fun u => (s.run imem u).retired = true) t = k

/-- What is retired at clock `t` is what the simulator executes in its `k`-th cycle, and
so is what it writes. -/
structure Retirement (imem : BitVec 32 → BitVec 32) (s : Top) (sim : Sim) (k t : Nat) : Prop
    extends RetiresAt imem s k t where
  pc : (s.run imem t).pcWb = pcAt sim k
  instr : (s.run imem t).memWb.instr = wordAt sim k
  value : (s.run imem t).memWb.written = writtenAt sim k
  regs : (s.run imem t).regFileNext = regsAt sim (k + 1)

/-- `Top` right after reset and the simulator before its first cycle. -/
structure Boots (imem : BitVec 32 → BitVec 32) (s : Top) (sim : Sim) : Prop where
  reset : s.IsReset
  regs : s.regFile = sim.current.regs
  program : Program imem sim

/-- Where the instructions are at clock `t`. -/
def Top.track (imem : BitVec 32 → BitVec 32) (s : Top) : Nat → Track
  | 0 => Track.empty
  | t + 1 =>
      (s.track imem t).clock ((s.run imem t).dataStall false) ((s.run imem t).controlStall false)

section Run

variable {imem : BitVec 32 → BitVec 32} {s : Top} {sim : Sim}

theorem Boots.inv_empty (h : Boots imem s sim) : Inv sim Track.empty s where
  regs := h.regs
  typed := by
    refine ⟨Or.inl ?_, Or.inl ?_, Or.inl ?_⟩
    · rw [h.reset.idEx]
    · rw [h.reset.exMem]
    · rw [h.reset.memWb]
  wbFull hT := absurd hT nofun
  wbEmpty _ := by
    rw [h.reset.memWb]
    exact ⟨rfl, rfl⟩
  memFull hT := absurd hT nofun
  memEmpty _ := by
    rw [h.reset.exMem]
    exact ⟨rfl, rfl, rfl⟩
  exFull hT := absurd hT nofun
  exEmpty _ := by
    rw [h.reset.idEx]
    exact ⟨rfl, rfl, rfl⟩
  idFull hT := absurd hT nofun
  idEmpty _ := by rw [h.reset.ifId]
  fetchId hT := absurd hT nofun
  fetchEx hc := by
    rw [h.reset.idEx] at hc
    exact absurd hc nofun
  fetchMem hc := by
    rw [h.reset.exMem] at hc
    exact absurd hc nofun
  fetch _ _ _ := h.reset.pc.trans h.program.pc.symm
  pcId hT := absurd hT nofun
  pcEx hT := absurd hT nofun
  pcMem hT := absurd hT nofun
  pcWb hT := absurd hT nofun

namespace Boots

variable (h : Boots imem s sim)

include h

/-- The invariant holds at every clock. -/
theorem inv (t : Nat) : Inv sim (s.track imem t) (s.run imem t) := by
  induction t with
  | zero => exact h.inv_empty
  | succ t ih => exact ih.clock h.program

/-- What leaves WB is an instruction. -/
theorem retired_eq (t : Nat) : (s.run imem t).retired = (s.track imem t).wb := by
  have hinv := h.inv t
  unfold Top.retired
  cases hT : (s.track imem t).wb with
  | true =>
      have hdone := hinv.wbFull hT
      rw [hdone.valid, hdone.instr, bne_iff_ne.mpr (h.program.wordAt_ne_zero _)]
      rfl
  | false =>
      rw [(hinv.wbEmpty hT).instr]
      exact Bool.and_false _

theorem count_eq (t : Nat) :
    Nat.count (fun u => (s.run imem u).retired = true) t = (s.track imem t).n := by
  induction t with
  | zero => rfl
  | succ t ih =>
      rw [Nat.count_succ, ih, h.retired_eq]
      show _ = (s.track imem t).n + (s.track imem t).wb.toNat
      cases (s.track imem t).wb <;> rfl

/-- What leaves WB is the next instruction of the simulator. -/
theorem retirement {t : Nat} (hT : (s.track imem t).wb = true) :
    Retirement imem s sim (s.track imem t).n t where
  retired := (h.retired_eq t).trans hT
  count := h.count_eq t
  pc := (h.inv t).pcWb hT
  instr := ((h.inv t).wbFull hT).instr
  value := ((h.inv t).wbFull hT).written
  regs := by
    rw [(h.inv t).regFileNext h.program, Track.iMem, hT]
    rfl

/-- ID does not wait when there is nothing ahead of it. -/
theorem dataStall_of_alone {t : Nat} (hwb : (s.track imem t).wb = false)
    (hmem : (s.track imem t).mem = false) (hex : (s.track imem t).ex = false) :
    (s.run imem t).dataStall false = true := by
  have hinv := h.inv t
  have hinstr : (s.run imem t).idEx.instr = 0 := (hinv.exEmpty hex).instr
  unfold Top.dataStall
  rw [hinstr, (hinv.memEmpty hmem).instr, (hinv.wbEmpty hwb).instr]
  simp only [dependsOn_zero, Bool.or_self, Bool.and_false]
  rfl

/-- Nor does fetch. -/
theorem controlStall_of_alone {t : Nat} (hmem : (s.track imem t).mem = false)
    (hex : (s.track imem t).ex = false) (hid : (s.track imem t).id = false) :
    (s.run imem t).controlStall false = true := by
  have hinv := h.inv t
  have hinstr : (s.run imem t).idEx.instr = 0 := (hinv.exEmpty hex).instr
  refine controlStall_eq_true_iff.mpr ?_
  rw [hinstr, (hinv.memEmpty hmem).instr, hinv.idEmpty hid]
  exact ⟨isControl_zero, isControl_zero, isControl_zero⟩

end Boots

/-- The instruction that is to be retired next at clock `t` gets to WB. -/
def Arrives (imem : BitVec 32 → BitVec 32) (s : Top) (t : Nat) : Prop :=
  ∃ u, (s.track imem u).wb = true ∧ (s.track imem u).n = (s.track imem t).n

theorem arrives_of_wb {t : Nat} (hT : (s.track imem t).wb = true) : Arrives imem s t :=
  ⟨t, hT, rfl⟩

/-- It is there, or it gets there from where it is a clock later. -/
theorem arrives_of_succ {t : Nat}
    (h : (s.track imem t).wb = false → Arrives imem s (t + 1)) : Arrives imem s t := by
  cases hwb : (s.track imem t).wb with
  | true => exact arrives_of_wb hwb
  | false =>
      obtain ⟨u, hu, hn⟩ := h hwb
      refine ⟨u, hu, hn.trans ?_⟩
      show (s.track imem t).n + (s.track imem t).wb.toNat = _
      rw [hwb]
      rfl

theorem arrives_of_mem {t : Nat} (hT : (s.track imem t).mem = true) : Arrives imem s t :=
  arrives_of_succ fun _ => arrives_of_wb hT

theorem arrives_of_ex {t : Nat} (hT : (s.track imem t).ex = true) : Arrives imem s t :=
  arrives_of_succ fun _ => arrives_of_mem hT

namespace Boots

variable (h : Boots imem s sim)

include h

theorem arrives_of_id {t : Nat} (hT : (s.track imem t).id = true) : Arrives imem s t := by
  cases hm : (s.track imem t).mem with
  | true => exact arrives_of_mem hm
  | false =>
  cases he : (s.track imem t).ex with
  | true => exact arrives_of_ex he
  | false =>
      refine arrives_of_succ fun hwb => arrives_of_ex ?_
      show ((s.track imem t).id && (s.run imem t).dataStall false) = true
      rw [hT, h.dataStall_of_alone hwb hm he]
      rfl

theorem arrives (t : Nat) : Arrives imem s t := by
  cases hT : (s.track imem t).id with
  | true => exact h.arrives_of_id hT
  | false =>
  cases hm : (s.track imem t).mem with
  | true => exact arrives_of_mem hm
  | false =>
  cases he : (s.track imem t).ex with
  | true => exact arrives_of_ex he
  | false =>
      refine arrives_of_succ fun hwb => h.arrives_of_id ?_
      show (if !(s.run imem t).dataStall false then (s.track imem t).id
        else (s.run imem t).controlStall false) = true
      rw [h.dataStall_of_alone hwb hm he, h.controlStall_of_alone hm he hT]
      rfl

/-- Every instruction gets to WB. -/
theorem exists_wb (k : Nat) : ∃ t, (s.track imem t).wb = true ∧ (s.track imem t).n = k := by
  induction k with
  | zero => exact h.arrives 0
  | succ k ih =>
      obtain ⟨t, hT, hn⟩ := ih
      obtain ⟨u, hu, hun⟩ := h.arrives (t + 1)
      refine ⟨u, hu, hun.trans ?_⟩
      show (s.track imem t).n + (s.track imem t).wb.toNat = k + 1
      rw [hT, hn]
      rfl

end Boots

end Run

/-- From reset, the pipeline retires what the simulator executes, and nothing else. -/
theorem stalling_retires {imem : BitVec 32 → BitVec 32} {s : Top} {sim : Sim}
    (hb : Boots imem s sim) :
    (∀ k, ∃ t, Retirement imem s sim k t) ∧
      ∀ t, (s.run imem t).retired = true → ∃ k, Retirement imem s sim k t := by
  constructor
  · intro k
    obtain ⟨t, hT, rfl⟩ := hb.exists_wb k
    exact ⟨t, hb.retirement hT⟩
  · intro t ht
    exact ⟨_, hb.retirement ((hb.retired_eq t).symm.trans ht)⟩

/-! ## Programs that loop -/

/-- Where an instruction may lead. -/
def successors (pc : BitVec 32) : Instr → List (BitVec 32)
  | .b _ _ _ imm => [branchTarget pc imm, pc + 4]
  | .j target => [jumpTarget pc target]
  | _ => [pc + 4]

theorem nextPc_mem_successors {x : Instr} (hc : isTextbook x = true) (pc : BitVec 32)
    (regs : BitVec 5 → BitVec 32) : x.nextPc pc regs ∈ successors pc x := by
  cases x with
  | b f rs rt imm =>
      simp only [Instr.nextPc, successors]
      split <;> simp
  | r | i | j => exact List.mem_singleton.mpr rfl
  | sh | lw | sw | bz | jal => simp [isTextbook] at hc

/-- An instruction of the class at an address inside the text that leads nowhere but to
`pcs`. -/
def isClosedAt (imem : BitVec 32 → BitVec 32) (pcs : List (BitVec 32)) (pc : BitVec 32) : Bool :=
  decide (pc < 0x1FFC) &&
    match decodeInstr (iMemBank imem pc) with
    | some x => isTextbook x && (successors pc x).all (pcs.contains ·)
    | none => false

/-- A text that keeps to a list of addresses is a program, whatever the registers hold. -/
theorem Program.of_closed {imem : BitVec 32 → BitVec 32} {sim : Sim}
    (hnext : sim.next = sim.current) (hpc : sim.current.pc = 0) (hzero : sim.current.regs 0 = 0)
    (htext : ∀ pc : BitVec 32, pc &&& 3 = 0 → pc < 0x1FFC → sim.memRead pc = iMemBank imem pc)
    {pcs : List (BitVec 32)} (hstart : 0 ∈ pcs)
    (hall : pcs.all (isClosedAt imem pcs) = true) : Program imem sim := by
  have hat : ∀ pc ∈ pcs, pc &&& 3 = 0 → pc < 0x1FFC ∧ ∃ x,
      decodeInstr (sim.memRead pc) = some x ∧ isTextbook x = true ∧
        ∀ pc' ∈ successors pc x, pc' ∈ pcs := by
    intro pc hmem haligned
    have hcheck := List.all_eq_true.mp hall pc hmem
    simp only [isClosedAt, Bool.and_eq_true, decide_eq_true_eq] at hcheck
    obtain ⟨hlt, hdec⟩ := hcheck
    refine ⟨hlt, ?_⟩
    rw [htext pc haligned hlt]
    cases hx : decodeInstr (iMemBank imem pc) with
    | none =>
        rw [hx] at hdec
        exact absurd hdec nofun
    | some x =>
        rw [hx] at hdec
        simp only [Bool.and_eq_true, List.all_eq_true, List.contains_iff_mem] at hdec
        exact ⟨x, rfl, hdec.1, hdec.2⟩
  have hrun : ∀ i, Steady sim i ∧ pcAt sim i ∈ pcs := by
    intro i
    induction i with
    | zero =>
        refine ⟨⟨hnext, ?_, hzero, rfl⟩, ?_⟩
        · show sim.current.pc &&& 3 = 0
          rw [hpc]
          decide
        · show sim.current.pc ∈ pcs
          rwa [hpc]
    | succ i ih =>
        obtain ⟨hst, hmem⟩ := ih
        obtain ⟨-, x, hx, hc, hsucc⟩ := hat _ hmem hst.aligned
        rw [← hst.wordAt_eq] at hx
        refine ⟨hst.succ hx hc, ?_⟩
        have hpc' : pcAt sim (i + 1) = x.nextPc (pcAt sim i) (regsAt sim i) := by
          show (cycles sim (i + 1)).current.pc = _
          rw [show cycles sim (i + 1) = (cycles sim i).follow x from cycle_eq hst.next hx]
          rfl
        rw [hpc']
        exact hsucc _ (nextPc_mem_successors hc _ _)
  refine ⟨hnext, hpc, hzero, htext, fun i => ?_, fun i => ?_⟩
  · exact (hat _ (hrun i).2 (hrun i).1.aligned).1
  · obtain ⟨-, x, hx, hc, -⟩ := hat _ (hrun i).2 (hrun i).1.aligned
    exact ⟨x, (hrun i).1.wordAt_eq ▸ hx, hc⟩

/-- `ADDI r1, r0, 1`, `ADD r2, r1, r1`, `BNE r2, r1, 1`, `ORI r3, r0, 7`, `J 0`. -/
def stallLoop : BitVec 32 → BitVec 32 := fun i =>
  if i = 0 then 0x20010001 else if i = 1 then 0x00211020 else if i = 2 then 0x14410001
  else if i = 3 then 0x34030007 else if i = 4 then 0x08000000 else 0

theorem boots_stallLoop :
    Boots stallLoop Top.cleared
      (bootSim pipelineLayout stallLoop (fun _ => 0) fun _ => 0) where
  reset := ⟨rfl, rfl, rfl, rfl, rfl⟩
  regs := rfl
  program := by
    have hagree : pipelineLayout.Agrees stallLoop (fun _ => 0)
        (bootSim pipelineLayout stallLoop (fun _ => 0) fun _ => 0) :=
      pipelineLayout.agrees_bootMemory rfl
    have hclosed : [0, 4, 8, 12, 16].all (isClosedAt stallLoop [0, 4, 8, 12, 16]) = true := by
      decide +kernel
    exact Program.of_closed rfl rfl rfl hagree.text List.mem_cons_self hclosed

theorem stalling_retires_stallLoop :
    (∀ k, ∃ t, Retirement stallLoop Top.cleared
      (bootSim pipelineLayout stallLoop (fun _ => 0) fun _ => 0) k t) ∧
    ∀ t, (Top.cleared.run stallLoop t).retired = true → ∃ k, Retirement stallLoop Top.cleared
      (bootSim pipelineLayout stallLoop (fun _ => 0) fun _ => 0) k t :=
  stalling_retires boots_stallLoop

end SimpleCpu.Mips.Textbook
