import SimpleCpu.Mips.IssFrame
import SimpleCpu.Mips.LinkRegister
import SimpleCpu.Mips.NonInterference
import SimpleCpu.Pipeline.Static

/-!
# Programs the MIPS pipeline retires

`program_retires`: whatever the branch predictor holds, the pipeline retires what the
simulator executes, `SYSCALL` included, if the program keeps clear of what the forwarding
paths and the predictor leave out.  All of it can be read off the words that the simulator
executes one after the other:

* a loaded word is not taken through the second port right behind the load (`LoadUse`);
* the link register of a branch is not taken by the next two instructions (`LinkUse`,
  `LateLinkUse`);
* no branch leaves the sequence two instructions behind another (`ShadowedJump`).
-/

namespace SimpleCpu.Mips

open SimpleCpu.Rtl SimpleCpu.Pipeline SimpleCpu.Mips.Isa SimpleCpu.Mips.Iss

/-! ## Words one after the other -/

/-- The word that the simulator executes in its `i`-th cycle. -/
def wordAt (sim : Sim) (i : Nat) : Word := (cycles sim i).memRead (cycles sim i).current.pc

namespace Isa

def IsBranch (w : Word) : Prop := ∃ x ∈ decodeInstr w, x.isBranch = true

/-- The register an instruction writes. -/
def Instr.written : Instr → Option (BitVec 5)
  | .r _ rd _ _ | .sh _ rd _ _ => some rd
  | .i _ rt _ _ | .lw rt _ _ => some rt
  | .bz f _ _ => if f.links then some 31 else none
  | .jal _ => some 31
  | .sw .. | .b .. | .j _ => none

def Writes (w : Word) (r : BitVec 5) : Prop := ∃ x ∈ decodeInstr w, r ∈ x.written

/-- The register behind the first operand, where the datapath makes something of it: `JAL`
sends it through the adder. -/
def Instr.port1 (w : Word) : Instr → Option (BitVec 5)
  | .j _ => none
  | x => some (x.source1 w)

/-- One of the ports delivers `r`. -/
def Takes (w : Word) (r : BitVec 5) : Prop :=
  ∃ x ∈ decodeInstr w, r ∈ x.port1 w ∨ r ∈ x.reads2

/-- Everything but the all-zero shift, which the decoder takes for no instruction. -/
def Instr.isPipelined (x : Instr) : Bool := x ≠ .sh .sll 0 0 0

end Isa

/-- The next instruction takes the link register of a branch. -/
def LinkUse (sim : Sim) (i : Nat) : Prop :=
  IsLinkBranch (wordAt sim i) ∧ Takes (wordAt sim (i + 1)) 31

/-- The one behind it does, and the one in between does not write it. -/
def LateLinkUse (sim : Sim) (i : Nat) : Prop :=
  IsLinkBranch (wordAt sim i) ∧ Takes (wordAt sim (i + 2)) 31 ∧ ¬ Writes (wordAt sim (i + 1)) 31

/-- A branch that leaves the sequence two instructions behind another one. -/
def ShadowedJump (sim : Sim) (i : Nat) : Prop :=
  IsBranch (wordAt sim i) ∧ IsBranch (wordAt sim (i + 2)) ∧
    (cycles sim (i + 3)).current.pc ≠ (cycles sim (i + 2)).current.pc + 4

/-- The simulator is at a `SYSCALL`. -/
structure AtSyscall (sim : Sim) : Prop where
  inText : sim.current.pc < pipelineLayout.textEnd
  word : sim.memRead sim.current.pc = 0xc

/-- The first cycles of the simulator, up to the `k`-th, suit the pipeline. -/
structure Suits (sim : Sim) (k : Nat) : Prop where
  executes : ∀ i ≤ k, (∃ x, Executes pipelineLayout Instr.isPipelined (cycles sim i) x) ∨
    AtSyscall (cycles sim i)
  loadUse : ∀ i < k, ¬ LoadUse sim i
  linkUse : ∀ i < k, ¬ LinkUse sim i
  lateLinkUse : ∀ i, i + 2 ≤ k → ¬ LateLinkUse sim i
  shadow : ∀ i, i + 2 ≤ k → ¬ ShadowedJump sim i

/-- Whether a program suits the pipeline depends on what it executes. -/
theorem Suits.of_eq {sim sim' : Sim} {k : Nat} (h : Suits sim k)
    (hexec : ∀ i ≤ k, (∃ x, Executes pipelineLayout Instr.isPipelined (cycles sim' i) x) ∨
      AtSyscall (cycles sim' i))
    (hword : ∀ i ≤ k, wordAt sim' i = wordAt sim i)
    (hcur : ∀ i ≤ k + 1, (cycles sim i).current = (cycles sim' i).current) : Suits sim' k where
  executes := hexec
  loadUse i hi := by
    rintro ⟨rt, rs, imm, x, hr, hlw, hx, hreads⟩
    refine h.loadUse i hi ⟨rt, rs, imm, x, hr, ?_, ?_, hreads⟩
    · exact (congrArg decodeInstr (hword i (by omega))).symm.trans hlw
    · exact (congrArg decodeInstr (hword (i + 1) (by omega))).symm.trans hx
  linkUse i hi := by
    unfold LinkUse
    rw [hword i (by omega), hword (i + 1) (by omega)]
    exact h.linkUse i hi
  lateLinkUse i hi := by
    unfold LateLinkUse
    rw [hword i (by omega), hword (i + 1) (by omega), hword (i + 2) hi]
    exact h.lateLinkUse i hi
  shadow i hi := by
    unfold ShadowedJump
    rw [hword i (by omega), hword (i + 2) hi, ← hcur (i + 3) (by omega), ← hcur (i + 2) (by omega)]
    exact h.shadow i hi

/-! ## `SYSCALL` -/

/-- The word does nothing in the datapath. -/
structure IssueOut.Idle (d : IssueOut) : Prop where
  valid : d.valid = true
  jump : d.jump = false
  branch : d.branch = false
  regWr : d.regWr = false
  memWr : d.memWr = false
  useLinkReg : d.useLinkReg = false

/-- It does nothing in the simulator either, except that it may end the run. -/
theorem cycle_syscall {sim : Sim} (hnext : sim.next = sim.current)
    (hw : sim.memRead sim.current.pc = 0xc) :
    (cycle sim).current = { sim.current with pc := sim.current.pc + 4 } ∧
      (cycle sim).mem = sim.mem ∧
      (sim.current.regs 2 ≠ 0xa → (cycle sim).runBit = sim.runBit) := by
  have hexec : processInstruction sim =
      (if sim.current.reg 2 = 0xA then { { sim with instrOpcode := 0xc } with
        runBit := false } else { sim with instrOpcode := 0xc }).assign
          (·.setPc (sim.current.pc + 4)) := by
    rw [processInstruction_eq hw]
    rfl
  unfold cycle
  rw [hexec, ← hnext]
  split
  next h => exact ⟨rfl, rfl, fun hne => absurd h hne⟩
  next => exact ⟨rfl, rfl, fun _ => rfl⟩

section Idle

variable {imem : Word → Word} {a : Arch Word (BitVec 5) Dmem} {sim : Sim}

theorem idle_syscall (h : instrMemRead imem a.pc = 0xc) : ((core imem).seqDec a).Idle := by
  have hlink : ∀ iss, (issueStage false iss).useLinkReg = (decode iss.instr).useLinkReg :=
    fun _ => rfl
  have hdec : (core imem).seqDec a =
      issueStage false { instr := 0xc, currPc := a.pc, nextPc := (core imem).nextSeq a.pc } := by
    rw [← h]
    rfl
  rw [hdec]
  constructor
  · exact (issueStage_valid_iff _).mpr (show ¬ IsNop 0xc by decide)
  · show (control (decode 0xc).op (decode 0xc).funct).jump = false
    decide
  · show (control (decode 0xc).op (decode 0xc).funct).branch = false
    decide
  · show (control (decode 0xc).op (decode 0xc).funct).regWr = false
    decide
  · show (control (decode 0xc).op (decode 0xc).funct).memWr = false
    decide
  · rw [hlink]
    show (decode 0xc).useLinkReg = false
    decide

theorem IssueOut.Idle.seqStep (h : ((core imem).seqDec a).Idle) :
    (core imem).seqStep a = { a with pc := a.pc + 4 } := by
  have hwr : ((core imem).seqWb a).wrEn = false := by
    show (((core imem).seqDec a).regWr || ((core imem).seqDec a).useLinkReg) = false
    rw [h.regWr, h.useLinkReg]
    rfl
  have hmem : (core imem).store ((core imem).seqMid a) a.mem = a.mem := by
    show dataMemWrite a.mem ((core imem).seqDec a).memWr _ _ = a.mem
    rw [h.memWr]
    exact dataMemWriteAt_false _ _
  have htaken : (core imem).seqTaken a = false := by
    by_contra ht
    have ht' : (core imem).seqTaken a = true := by simpa using ht
    exact absurd (((@lawful imem).taken_branch _ _ _ ht').symm.trans h.branch) nofun
  have hpc : (core imem).seqPcNext a = a.pc + 4 := by
    have hjump : (core imem).jump ((core imem).seqDec a) = false := h.jump
    unfold Core.seqPcNext
    rw [hjump, htaken]
    exact adder_add _ _
  unfold Core.seqStep
  rw [hmem, hpc, WriteBack.apply, hwr]
  rfl

/-- One more instruction, if that is a `SYSCALL`. -/
theorem Lockstep.syscall (h : Lockstep pipelineLayout imem a sim) (hs : AtSyscall sim) :
    Lockstep pipelineLayout imem ((core imem).seqStep a) (Iss.cycle sim) ∧
      ((core imem).seqDec a).Idle := by
  have hword : instrMemRead imem a.pc = 0xc := by
    refine Eq.trans ?_ hs.word
    rw [h.pc]
    exact (h.mem.text _ h.aligned hs.inText).symm
  have hidle := idle_syscall hword
  obtain ⟨hcur, hmem, -⟩ := cycle_syscall h.next hs.word
  rw [hidle.seqStep]
  refine ⟨{ next := rfl, zero := ?_, regs := ?_, mem := ?_, pc := ?_, aligned := ?_ }, hidle⟩
  · rw [hcur]
    exact h.zero
  · rw [hcur]
    exact h.regs
  · exact h.mem.of_mem_eq hmem
  · rw [hcur]
    exact congrArg (· + 4) h.pc
  · rw [hcur]
    exact Instr.nextPc_aligned h.aligned sim.current.regs (.sh .sll 0 0 0)

end Idle

/-! ## Both machines, one instruction at a time -/

section Boots

variable {imem : Word → Word} {s : Top} {sim : Sim} {p : Instr → Bool} {k : Nat}

theorem executable_inText
    (h : (∃ x, Executes pipelineLayout p sim x) ∨ AtSyscall sim) :
    sim.current.pc < pipelineLayout.textEnd := by
  rcases h with ⟨x, hx⟩ | hs
  · exact hx.inText
  · exact hs.inText

/-- The functions of the pipeline, one instruction at a time, keep up with the simulator. -/
theorem Boots.lockstep (hb : Boots imem s sim)
    (hexec : ∀ i ≤ k, (∃ x, Executes pipelineLayout p (cycles sim i) x) ∨
      AtSyscall (cycles sim i)) (i : Nat) (hi : i ≤ k) :
    Lockstep pipelineLayout imem ((core imem).seqRun s.arch i) (cycles sim i) := by
  induction i with
  | zero => exact hb.start
  | succ i ih =>
      have hlock := ih (by omega)
      rcases hexec i (by omega) with ⟨x, hx⟩ | hs
      · have henc := hlock.encodes hx
        have hnext : (cycles sim (i + 1)).current.pc =
            x.nextPc ((core imem).seqRun s.arch i).pc ((core imem).seqRun s.arch i).regs := by
          rw [hlock.pc, hlock.regs, cycles, cycle_eq hlock.next hx.word]
          rfl
        have hbound : ∀ j ≤ k, (cycles sim j).current.pc.toNat < 2 ^ 26 := fun j hj => by
          have hlt : (cycles sim j).current.pc.toNat < 0x1FFC := executable_inText (hexec j hj)
          omega
        have hzero : ((core imem).seqRun s.arch i).regs 0 = 0 := by
          rw [hlock.regs, hlock.zero]
        refine hlock.cycle hx (seqStep_follows henc hzero) (seqStep_pc henc fun _ => ⟨?_, ?_⟩)
        · rw [hlock.pc]
          exact hbound i (by omega)
        · rw [← hnext]
          exact hbound (i + 1) hi
      · exact (hlock.syscall hs).1

end Boots

/-! ## What an instruction does to the ones behind it -/

section Instr

variable {imem : Word → Word} {a : Arch Word (BitVec 5) Dmem} {x : Instr}

theorem Isa.Instr.written_eq (x : Instr) :
    x.written = if x.controls.regWr || x.links then some x.dest else none := by
  cases x with
  | bz f => cases f <;> rfl
  | r | sh | i | lw | sw | b | j | jal => rfl

/-- A write-back, by the register it goes to. -/
theorem seqWb_written (hx : Encodes (instrMemRead imem a.pc) x) (r : BitVec 5) :
    ((core imem).seqWb a).wrEn = true ∧ ((core imem).seqWb a).rd = r ↔ r ∈ x.written := by
  have h := seqDec_issues hx
  have hwr : ((core imem).seqWb a).wrEn = (x.controls.regWr || x.links) := by
    show (((core imem).seqDec a).regWr || ((core imem).seqDec a).useLinkReg) = _
    rw [h.regWr, h.useLinkReg]
  have hrd : ((core imem).seqWb a).rd = ((core imem).seqDec a).rd := rfl
  rw [hwr, hrd, Instr.written_eq, Option.mem_def]
  cases hw : x.controls.regWr || x.links with
  | false => exact iff_of_false (fun h => Bool.false_ne_true h.1) nofun
  | true =>
      rw [h.rd (by simpa using hw), if_pos rfl, Option.some_inj]
      exact and_iff_right rfl

/-- Only the link address of a branch is not forwarded. -/
theorem link_of_not_forwarded (hx : Encodes (instrMemRead imem a.pc) x) {r : BitVec 5}
    (hr : r ∈ x.written) (hno : (core imem).fwdEn ((core imem).seqMid a) = false) :
    x.links = true ∧ x.isJump = false ∧ r = 31 := by
  have hreg : x.controls.regWr = false := (seqDec_issues hx).regWr.symm.trans hno
  cases x with
  | bz f rs imm =>
      have hlinks : f.links = true := by
        by_contra hl
        have hnone : (Instr.bz f rs imm).written = none := if_neg hl
        rw [hnone] at hr
        exact absurd hr nofun
      have hsome : (Instr.bz f rs imm).written = some 31 := if_pos hlinks
      rw [hsome] at hr
      exact ⟨hlinks, rfl, (Option.some.inj hr).symm⟩
  | r | sh | i | lw | jal => exact absurd hreg nofun
  | sw | b | j => exact absurd hr nofun

theorem Isa.Instr.source1_of_port1 {w : Word} {r : BitVec 5} (h : r ∈ x.port1 w) :
    x.source1 w = r := by
  cases x with
  | j => exact absurd h nofun
  | r | sh | i | lw | sw | b | bz | jal => exact Option.some.inj h

theorem Issues.ignores1 {iss : IssPipeReg} {d : IssueOut} (h : Issues x iss d) {w : Word}
    (hport : x.port1 w = none) : (core imem).Ignores1 d := by
  refine Mips.ignores1 ?_
  rw [h.regWr, h.memWr, h.branch]
  cases x with
  | j => rfl
  | r | sh | i | lw | sw | b | bz | jal => exact absurd hport nofun

theorem Issues.ignores2 {iss : IssPipeReg} {d : IssueOut} (h : Issues x iss d)
    (hreads : x.reads2 = none) : (core imem).Ignores2 d := by
  have hm : x.controls.memWr = false := by
    cases x with
    | r | sw | b => exact absurd hreads nofun
    | sh | i | lw | bz | j | jal => rfl
  refine Mips.ignores2 (h.memWr.trans hm) fun hsrc => ?_
  rw [h.aluSrc] at hsrc
  cases x with
  | r | sw | b => exact absurd hreads nofun
  | sh | i | lw | bz | j | jal => exact absurd hsrc (by simp [Instr.controls])

theorem IssueOut.Idle.ignores {d : IssueOut} (h : d.Idle) :
    (core imem).Ignores1 d ∧ (core imem).Ignores2 d := by
  refine ⟨Mips.ignores1 ?_, Mips.ignores2 h.memWr fun _ => ⟨h.regWr, h.branch⟩⟩
  rw [h.regWr, h.memWr, h.branch]
  rfl

end Instr

/-! ## Runs of both machines -/

/-- A suitable program, from the start of both machines to its `k`-th instruction. -/
structure SuitedRun (imem : Word → Word) (s : Top) (sim : Sim) (k : Nat) : Prop where
  boots : Boots imem s sim
  suits : Suits sim k

namespace SuitedRun

variable {imem : Word → Word} {s : Top} {sim : Sim} {k : Nat} (h : SuitedRun imem s sim k)

include h

theorem inText (i : Nat) (hi : i ≤ k) :
    (cycles sim i).current.pc < pipelineLayout.textEnd :=
  executable_inText (h.suits.executes i hi)

theorem lockstep (i : Nat) (hi : i ≤ k) :
    Lockstep pipelineLayout imem ((core imem).seqRun s.arch i) (cycles sim i) :=
  h.boots.lockstep h.suits.executes i hi

/-- Both machines execute the same words. -/
theorem word_eq (i : Nat) (hi : i ≤ k) :
    instrMemRead imem ((core imem).seqRun s.arch i).pc = wordAt sim i := by
  have hlock := h.lockstep i hi
  rw [hlock.pc]
  exact (hlock.mem.text _ hlock.aligned (h.inText i hi)).symm

/-- A word is that of an instruction, or does nothing. -/
theorem cases (i : Nat) (hi : i ≤ k) :
    (∃ x, decodeInstr (wordAt sim i) = some x ∧ x.isPipelined = true ∧
      Encodes (instrMemRead imem ((core imem).seqRun s.arch i).pc) x) ∨
    decodeInstr (wordAt sim i) = none ∧ ((core imem).seqDec ((core imem).seqRun s.arch i)).Idle := by
  have hlock := h.lockstep i hi
  rcases h.suits.executes i hi with ⟨x, hx⟩ | hs
  · exact Or.inl ⟨x, hx.word, hx.inClass, hlock.encodes hx⟩
  · refine Or.inr ⟨?_, (hlock.syscall hs).2⟩
    rw [show wordAt sim i = 0xc from hs.word]
    decide

/-- The instruction that writes a register. -/
theorem written (i : Nat) (hi : i ≤ k) (r : BitVec 5) :
    ((core imem).seqWb ((core imem).seqRun s.arch i)).wrEn = true ∧
      ((core imem).seqWb ((core imem).seqRun s.arch i)).rd = r ↔ Writes (wordAt sim i) r := by
  rcases h.cases i hi with ⟨x, hx, -, henc⟩ | ⟨hnone, hidle⟩
  · rw [seqWb_written henc]
    constructor
    · exact fun hr => ⟨x, hx, hr⟩
    · rintro ⟨y, hy, hr⟩
      obtain rfl := Option.some.inj (hx.symm.trans hy)
      exact hr
  · refine iff_of_false (fun hw => ?_) fun ⟨y, hy, _⟩ => absurd (hnone.symm.trans hy) nofun
    have hno : (((core imem).seqDec ((core imem).seqRun s.arch i)).regWr ||
        ((core imem).seqDec ((core imem).seqRun s.arch i)).useLinkReg) = false := by
      rw [hidle.regWr, hidle.useLinkReg]
      rfl
    exact absurd (hw.1.symm.trans hno) nofun

/-- One whose write is not forwarded. -/
theorem linkBranch (i : Nat) (hi : i ≤ k) {r : BitVec 5}
    (hwr : ((core imem).seqWb ((core imem).seqRun s.arch i)).wrEn = true)
    (hrd : ((core imem).seqWb ((core imem).seqRun s.arch i)).rd = r)
    (hno : (core imem).fwdEn ((core imem).seqMid ((core imem).seqRun s.arch i)) = false) :
    IsLinkBranch (wordAt sim i) ∧ r = 31 := by
  obtain ⟨y, hy, hr⟩ := (h.written i hi r).mp ⟨hwr, hrd⟩
  rcases h.cases i hi with ⟨x, hx, -, henc⟩ | ⟨hnone, -⟩
  · obtain rfl := Option.some.inj (hx.symm.trans hy)
    obtain ⟨hlinks, hjump, hr31⟩ := link_of_not_forwarded henc hr hno
    exact ⟨⟨x, hx, hlinks, hjump⟩, hr31⟩
  · exact absurd (hnone.symm.trans hy) nofun

/-- What an instruction takes is forwarded to it, if it is forwarded as it is written. -/
theorem served {fwdVal : MemPipeReg → Dmem → Word} {j : Nat} (hj : j ≤ k) {r : BitVec 5}
    (htakes : Takes (wordAt sim j) r)
    (hval : ∀ i, i + 1 = j → Writes (wordAt sim i) r → r ≠ 0 →
      (core imem).fwdEn ((core imem).seqMid ((core imem).seqRun s.arch i)) = true →
      (core imem).jump ((core imem).seqDec ((core imem).seqRun s.arch i)) = false →
      fwdVal ((core imem).seqMid ((core imem).seqRun s.arch i))
          ((core imem).seqRun s.arch i).mem =
        ((core imem).seqWb ((core imem).seqRun s.arch i)).data) (hr : r ≠ 0) :
    (core imem).Served s.arch fwdVal j r where
  first i hi hwr hrd := by
    have hfwd : (core imem).fwdEn ((core imem).seqMid ((core imem).seqRun s.arch i)) = true := by
      by_contra hno
      obtain ⟨hlink, rfl⟩ := h.linkBranch i (by omega) hwr hrd (by simpa using hno)
      subst hi
      exact h.suits.linkUse i (by omega) ⟨hlink, htakes⟩
    exact ⟨hfwd, hval i hi ((h.written i (by omega) r).mp ⟨hwr, hrd⟩) hr hfwd⟩
  second i hi hwr hrd := by
    by_contra hno
    rw [not_or] at hno
    obtain ⟨hlink, rfl⟩ := h.linkBranch i (by omega) hwr hrd (by simpa using hno.1)
    subst hi
    refine h.suits.lateLinkUse i hj ⟨hlink, htakes, fun hw => ?_⟩
    exact hno.2 ((h.written (i + 1) (by omega) 31).mpr hw)

/-- The instruction that forwards a word. -/
theorem forwarded {i : Nat} (hi : i ≤ k) {r : BitVec 5} (hw : Writes (wordAt sim i) r)
    (hr : r ≠ 0)
    (hfwd : (core imem).fwdEn ((core imem).seqMid ((core imem).seqRun s.arch i)) = true)
    (hjump : (core imem).jump ((core imem).seqDec ((core imem).seqRun s.arch i)) = false) :
    ∃ x ∈ decodeInstr (wordAt sim i), r ∈ x.written ∧
      ((core imem).seqMid ((core imem).seqRun s.arch i)).isLw = x.controls.memToReg ∧
      (core imem).fwdVal1 ((core imem).seqMid ((core imem).seqRun s.arch i))
          ((core imem).seqRun s.arch i).mem =
        ((core imem).seqWb ((core imem).seqRun s.arch i)).data := by
  obtain ⟨y, hy, hyr⟩ := hw
  rcases h.cases i hi with ⟨x, hx, -, henc⟩ | ⟨hnone, -⟩
  · obtain rfl := Option.some.inj (hx.symm.trans hy)
    have hiss := seqDec_issues henc
    have hrd := ((h.written i hi r).mpr ⟨x, hx, hyr⟩).2
    exact ⟨x, hx, hyr, hiss.isLw, hiss.forwards hjump _ _ _ hfwd fun h0 => hr (hrd.symm.trans h0)⟩
  · exact absurd (hnone.symm.trans hy) nofun

theorem isBranch {i : Nat} (hi : i ≤ k)
    (hbr : (core imem).branch ((core imem).seqDec ((core imem).seqRun s.arch i)) = true) :
    ∃ x ∈ decodeInstr (wordAt sim i), x.isBranch = true ∧
      Encodes (instrMemRead imem ((core imem).seqRun s.arch i).pc) x := by
  rcases h.cases i hi with ⟨x, hx, -, henc⟩ | ⟨-, hidle⟩
  · exact ⟨x, hx, (seqDec_issues henc).branch.symm.trans hbr, henc⟩
  · exact absurd (hbr.symm.trans hidle.branch) nofun

/-- A branch that is taken two instructions behind another one leads to the next word. -/
theorem shadowFree {i : Nat} (hi : i + 2 ≤ k)
    (hbr : (core imem).branch ((core imem).seqDec ((core imem).seqRun s.arch i)) = true)
    (htaken : (core imem).seqTaken ((core imem).seqRun s.arch (i + 2)) = true) :
    (core imem).brnTarget ((core imem).seqDec ((core imem).seqRun s.arch (i + 2))) =
      (core imem).seqPc ((core imem).seqDec ((core imem).seqRun s.arch (i + 2))) := by
  obtain ⟨y, hy, hyb, -⟩ := h.isBranch (by omega) hbr
  obtain ⟨x, hx, hxb, henc⟩ := h.isBranch hi ((@lawful imem).taken_branch _ _ _ htaken)
  have hlock := h.lockstep (i + 2) hi
  have hjump : x.isJump = false := by
    cases x with
    | b | bz => rfl
    | r | sh | i | lw | sw | j | jal => exact absurd hxb nofun
  have hnext : (cycles sim (i + 3)).current.pc =
      ((core imem).seqStep ((core imem).seqRun s.arch (i + 2))).pc := by
    rw [seqStep_pc henc fun hj => absurd (hj.symm.trans hjump) nofun, cycles,
      cycle_eq hlock.next hx, hlock.pc, hlock.regs]
    rfl
  have hpc : ((core imem).seqStep ((core imem).seqRun s.arch (i + 2))).pc =
      (core imem).brnTarget ((core imem).seqDec ((core imem).seqRun s.arch (i + 2))) := by
    have hj : (core imem).jump ((core imem).seqDec ((core imem).seqRun s.arch (i + 2))) = false :=
      (seqDec_issues henc).jump.trans hjump
    show (core imem).seqPcNext _ = _
    unfold Core.seqPcNext
    rw [hj, htaken]
    rfl
  have hseq : (core imem).seqPc ((core imem).seqDec ((core imem).seqRun s.arch (i + 2))) =
      (cycles sim (i + 2)).current.pc + 4 := by
    rw [← hlock.pc]
    exact adder_add _ _
  by_contra hne
  refine h.suits.shadow i hi ⟨⟨y, hy, hyb⟩, ⟨x, hx, hxb⟩, fun heq => hne ?_⟩
  rw [← hpc, ← hnext, heq, hseq]

theorem static : (core imem).Static s.arch (k + 1) where
  regular i _ := seqDec_regular
  port1 j hj := by
    rcases h.cases j (by omega) with ⟨x, hx, -, henc⟩ | ⟨-, hidle⟩
    · cases hport : x.port1 (instrMemRead imem ((core imem).seqRun s.arch j).pc) with
      | none => exact Or.inl ((seqDec_issues henc).ignores1 hport)
      | some r =>
          refine Or.inr fun hr => ?_
          rw [seqDec_rs1 henc, Instr.source1_of_port1 hport] at hr ⊢
          rw [h.word_eq j (by omega)] at hport
          refine h.served (by omega) ⟨x, hx, Or.inl hport⟩ (fun i hi hw _ hfwd hjump => ?_) hr
          obtain ⟨y, -, -, -, hdata⟩ := h.forwarded (by omega) hw hr hfwd hjump
          exact hdata
    · exact Or.inl hidle.ignores.1
  port2 j hj := by
    rcases h.cases j (by omega) with ⟨x, hx, -, henc⟩ | ⟨-, hidle⟩
    · cases hreads : x.reads2 with
      | none => exact Or.inl ((seqDec_issues henc).ignores2 hreads)
      | some r =>
          refine Or.inr fun hr => ?_
          rw [seqDec_rs2, ← henc.reads2_eq hreads] at hr ⊢
          refine h.served (by omega) ⟨x, hx, Or.inr hreads⟩ (fun i hi hw _ hfwd hjump => ?_) hr
          obtain ⟨y, hy, hyr, hlw, hdata⟩ := h.forwarded (by omega) hw hr hfwd hjump
          have hno : y.controls.memToReg = false := by
            cases y with
            | lw rt rs imm =>
                obtain rfl : rt = r := Option.some.inj hyr
                subst hi
                exact absurd ⟨rt, rs, imm, x, hr, hy, hx, hreads⟩ (h.suits.loadUse i (by omega))
            | r | sh | i | sw | b | bz | j | jal => rfl
          rw [hno] at hlw
          rw [← hdata]
          show _ = if ((core imem).seqMid ((core imem).seqRun s.arch i)).isLw then _ else _
          rw [hlw]
          rfl
    · exact Or.inl hidle.ignores.2
  shadow i hi hbr htaken := h.shadowFree (by omega) hbr htaken

theorem runHyps : Core.RunHyps (core imem) (k + 1) s.arch s.abs :=
  h.static.runHyps lawful ((congrFun h.boots.start.regs 0).trans h.boots.start.zero)
    h.boots.reset.atReset

theorem valid (i : Nat) (hi : i ≤ k) :
    ((core imem).seqWb ((core imem).seqRun s.arch i)).valid = true := by
  rcases h.cases i hi with ⟨x, -, hx, henc⟩ | ⟨-, hidle⟩
  · refine seqWb_valid henc ?_
    rintro rfl
    exact absurd hx (by decide)
  · exact hidle.valid

/-- The registers and the memory between two instructions, and after the last one. -/
theorem sameData (i : Nat) (hi : i ≤ k + 1) :
    SameData pipelineLayout imem ((core imem).seqRun s.arch i) (cycles sim i) := by
  cases i with
  | zero => exact h.boots.start.toSameData
  | succ i =>
      have hlock := h.lockstep i (by omega)
      rcases h.suits.executes i (by omega) with ⟨x, hx⟩ | hs
      · exact hlock.effect hx
          (seqStep_follows (hlock.encodes hx) (by rw [hlock.regs, hlock.zero]))
      · exact (hlock.syscall hs).1.toSameData

theorem retirement {t : Nat} (hv : (s.run imem t).wb.instrRetired = true)
    (hk : retiredBefore imem s t ≤ k) :
    Retirement imem s sim (retiredBefore imem s t) t ∧
      (s.run imem t).regFile = (cycles sim (retiredBefore imem s t)).current.regs := by
  generalize hcount : retiredBefore imem s t = n at hk ⊢
  have hcount' : Nat.count (fun u => ((core imem).run s.abs u).wb.valid = true) t = n := by
    simp only [← abs_run]
    exact hcount
  have hv' : ((core imem).run s.abs t).wb.valid = true := by
    rw [← abs_run]
    exact hv
  obtain ⟨-, hsh, hregs, hregs', hmem⟩ := h.runHyps.retired
    (fun i hi => h.valid i (by omega)) hcount' (Nat.lt_succ_of_le hk) hv'
  rw [← abs_run] at hsh hregs hregs' hmem
  have hdata := h.sameData (n + 1) (by omega)
  refine ⟨⟨⟨hv, hcount⟩, ?_, ?_, ?_, ?_⟩, ?_⟩
  · exact (congrArg Prod.fst hsh).trans (h.lockstep n hk).pc
  · exact (congrArg Prod.snd hsh).trans (h.word_eq n hk)
  · rw [← regFileNext_abs, hregs', hdata.regs]
  · intro addr haligned hlow hhigh
    have hdmem : (s.run imem t).dmem = ((core imem).seqRun s.arch (n + 1)).mem := hmem
    rw [hdmem]
    exact (hdata.mem.data addr haligned hlow hhigh).symm
  · exact hregs.trans (h.lockstep n hk).regs

theorem exists_retired : ∃ t, (s.run imem t).wb.instrRetired = true ∧
    retiredBefore imem s t = k := by
  obtain ⟨t, -, -, hwb, -, -, -, hcount⟩ := h.runHyps.retires k (Nat.lt_succ_self k)
  rw [Nat.count_iff_forall.mpr fun j hj => h.valid j (by omega)] at hcount
  simp only [← abs_run] at hwb hcount
  exact ⟨t + 2, (congrArg WriteBack.valid hwb).trans (h.valid k (Nat.le_refl k)), hcount⟩

end SuitedRun

/-- A suitable program is retired as the simulator executes it, registers and data memory
included, whatever the branch predictor holds: its `k`-th instruction is retired, and up to
it nothing else is. -/
theorem program_retires {imem : Word → Word} {s : Top} {sim : Sim} (hb : Boots imem s sim)
    {k : Nat} (h : Suits sim k) :
    (∃ t, Retirement imem s sim k t) ∧
      ∀ t, (s.run imem t).wb.instrRetired = true → retiredBefore imem s t ≤ k →
        Retirement imem s sim (retiredBefore imem s t) t := by
  have hrun : SuitedRun imem s sim k := ⟨hb, h⟩
  refine ⟨?_, fun t hv hk => (hrun.retirement hv hk).1⟩
  obtain ⟨t, hv, rfl⟩ := hrun.exists_retired
  exact ⟨t, (hrun.retirement hv (Nat.le_refl _)).1⟩

/-! ## A fixed run -/

section Decide

variable (sim : Sim) (i : Nat)

instance (w : Word) : Decidable (IsBranch w) :=
  inferInstanceAs (Decidable (∃ x ∈ decodeInstr w, x.isBranch = true))

instance (w : Word) (r : BitVec 5) : Decidable (Writes w r) :=
  inferInstanceAs (Decidable (∃ x ∈ decodeInstr w, r ∈ x.written))

instance (w : Word) (r : BitVec 5) : Decidable (Takes w r) :=
  inferInstanceAs (Decidable (∃ x ∈ decodeInstr w, r ∈ x.port1 w ∨ r ∈ x.reads2))

instance : Decidable (LinkUse sim i) := inferInstanceAs (Decidable (_ ∧ _))

instance : Decidable (LateLinkUse sim i) := inferInstanceAs (Decidable (_ ∧ _ ∧ ¬ _))

instance : Decidable (ShadowedJump sim i) := inferInstanceAs (Decidable (_ ∧ _ ∧ _))

end Decide

theorem not_loadUse {sim : Sim} {i : Nat}
    (h : ∀ x ∈ decodeInstr (wordAt sim i), x.controls.memToReg = false) : ¬ LoadUse sim i := by
  rintro ⟨rt, rs, imm, -, -, hlw, -, -⟩
  exact absurd (h _ hlw) (by simp [Instr.controls])

/-- A loop that is left in its second round, and the end of the program: `ADDI r1, r0, 2`,
`ADDI r1, r1, -1`, `BNE r1, r0, -2`, `ADDI r2, r0, 10` and `SYSCALL`. -/
def countdown : Word → Word := fun i =>
  if i = 0 then 0x20010002 else if i = 1 then 0x2021FFFF else if i = 2 then 0x1420FFFE
  else if i = 3 then 0x2002000A else 0xC

/-- The instructions that are executed. -/
def countdownInstr : Nat → Instr
  | 0 => .i .addi 1 0 2
  | 1 | 3 => .i .addi 1 1 0xFFFF
  | 2 | 4 => .b .bne 1 0 0xFFFE
  | _ => .i .addi 2 0 10

theorem suits_countdown :
    Suits (bootSim pipelineLayout countdown (fun _ => 0) fun _ => 0) 6 where
  executes i hi := by
    rcases Nat.lt_or_eq_of_le hi with hlt | rfl
    · refine Or.inl ⟨countdownInstr i, ?_⟩
      interval_cases i <;> exact executes_of_check (by decide +kernel)
    · exact Or.inr ⟨by decide +kernel, by decide +kernel⟩
  loadUse i hi := not_loadUse (by interval_cases i <;> decide +kernel)
  linkUse i hi := by interval_cases i <;> decide +kernel
  lateLinkUse i hi := by
    have hi' : i ≤ 4 := by omega
    interval_cases i <;> decide +kernel
  shadow i hi := by
    have hi' : i ≤ 4 := by omega
    interval_cases i <;> decide +kernel

/-- With a predictor that takes everything for a branch to address 12. -/
theorem program_retires_countdown :
    (∃ t, Retirement countdown Top.misled
      (bootSim pipelineLayout countdown (fun _ => 0) fun _ => 0) 6 t) ∧
      ∀ t, (Top.misled.run countdown t).wb.instrRetired = true →
        retiredBefore countdown Top.misled t ≤ 6 →
        Retirement countdown Top.misled
          (bootSim pipelineLayout countdown (fun _ => 0) fun _ => 0)
          (retiredBefore countdown Top.misled t) t :=
  program_retires ⟨⟨rfl, rfl, rfl, rfl, rfl⟩, lockstep_bootSim rfl⟩ suits_countdown

end SimpleCpu.Mips
