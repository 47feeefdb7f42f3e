import SimpleCpu.Mips.Refinement

/-!
# The link register in the pipeline

`BLTZAL`, `BGEZAL` and `JAL` write register 31 through `use_link_reg`, but the hazard unit
looks at `reg_wr` alone, which the branches leave low.  A reader of register 31 that is in
EX while such a branch is in MEM or WB computes with what register 31 held before.
`link_forwarded_iff` says that this is all that goes wrong: the bubble behind a `JAL`
leaves enough room for its link address.
-/

namespace SimpleCpu.Mips

open SimpleCpu.Rtl SimpleCpu.Pipeline SimpleCpu.Mips.Isa SimpleCpu.Mips.Iss

/-! ## Words -/

/-- `BLTZAL`, `BGEZAL` and `JAL`. -/
def Isa.IsLink (w : Word) : Prop := ∃ x, decodeInstr w = some x ∧ x.links = true

/-- `BLTZAL` and `BGEZAL`. -/
def Isa.IsLinkBranch (w : Word) : Prop :=
  ∃ x, decodeInstr w = some x ∧ x.links = true ∧ x.isJump = false

instance (w : Word) : Decidable (IsLinkBranch w) :=
  inferInstanceAs (Decidable (∃ x ∈ decodeInstr w, x.links = true ∧ x.isJump = false))

/-- What the first port reads is used: for a result that is written back, for the address of
a store, to decide a branch, or, for `JALR`, as the address to jump to. -/
def Decode.uses1 (d : Decode) (c : Controls) : Bool :=
  (c.regWr && !d.useLinkReg) || c.memWr || c.branch || (d.isRType && d.funct == Defines.JALR)

/-- What the second port reads is used: as the data of a store, or as the second operand of
the ALU for a result that is written back or to decide a branch. -/
def Decode.uses2 (d : Decode) (c : Controls) : Bool :=
  c.memWr || (c.aluSrc == 0 && ((c.regWr && !d.useLinkReg) || c.branch))

/-- The instruction reads register `r` through the first port. -/
def Isa.Reads1 (w : Word) (r : BitVec 5) : Prop :=
  let d := decode w
  let c := control d.op d.funct
  d.readReg1 c = r ∧ d.uses1 c = true

/-- The instruction reads register `r` through the second port. -/
def Isa.Reads2 (w : Word) (r : BitVec 5) : Prop :=
  let d := decode w
  d.rt = r ∧ d.uses2 (control d.op d.funct) = true

instance (w : Word) (r : BitVec 5) : Decidable (Reads1 w r) := inferInstanceAs (Decidable (_ ∧ _))

instance (w : Word) (r : BitVec 5) : Decidable (Reads2 w r) := inferInstanceAs (Decidable (_ ∧ _))

/-- The simulator writes the address behind a link instruction to register 31. -/
theorem cycle_link {sim : Sim} (hnext : sim.next = sim.current)
    (hw : IsLink (sim.memRead sim.current.pc)) :
    (cycle sim).current.regs 31 = sim.current.pc + 4 := by
  obtain ⟨x, hx, hlinks⟩ := hw
  rw [cycle_eq hnext hx]
  show x.nextRegs sim.memRead sim.current.pc sim.current.regs 31 = _
  cases x with
  | bz f rs imm =>
      have hf : f.links = true := hlinks
      simp [Instr.nextRegs, Instr.result, hf, writeReg]
  | jal target => simp [Instr.nextRegs, Instr.result, writeReg]
  | r | sh | i | lw | sw | b | j => exact absurd hlinks Bool.false_ne_true

/-! ## The property -/

def MemPipeReg.writesLinkReg (m : MemPipeReg) : Bool :=
  (m.regWr || m.useLinkReg) && m.rd == 31

def IssueOut.writesLinkReg (d : IssueOut) : Bool :=
  (d.regWr || d.useLinkReg) && d.rd == 31

namespace Top

variable (s : Top)

/-- `w` at `pc` is in MEM or WB, and nothing between it and EX writes register 31. -/
def AheadOfEx (pc w : Word) : Prop :=
  (s.mem.valid = true ∧ s.tb.pcMem = pc ∧ s.tb.instrMem = w) ∨
    (s.wb.instrRetired = true ∧ s.tb.pcWb = pc ∧ s.tb.instrWb = w ∧
      s.mem.writesLinkReg = false)

/-- `w` at `pc` is in EX or MEM, and nothing between it and ISS writes register 31. -/
def AheadOfIss (pc w : Word) : Prop :=
  (s.ex.valid = true ∧ s.tb.pcEx = pc ∧ s.tb.instrEx = w) ∨
    (s.mem.valid = true ∧ s.tb.pcMem = pc ∧ s.tb.instrMem = w ∧
      s.ex.writesLinkReg = false)

/-- An instruction in EX that reads register 31 behind a link instruction is handed the
link address. -/
def LinkForwarded : Prop :=
  ∀ pc w, IsLink w → s.AheadOfEx pc w → s.ex.valid = true →
    (Reads1 s.tb.instrEx 31 → s.rDataP1 = pc + 4) ∧
      (Reads2 s.tb.instrEx 31 → s.rDataP2 = pc + 4)

/-- Register 31 as the instructions in MEM and WB leave it, except that a link address in
MEM is not seen. -/
def oldLinkReg : Word :=
  if s.mem.regWr && s.mem.rd == 31 then (s.mem.toWb s.dmem).wrData else s.regFileNext 31

/-- When an instruction that reads register 31 leaves ISS behind `w` at `pc`, register 31
already happens to hold the link address. -/
def SettledBehind (pc w : Word) : Prop :=
  s.AheadOfIss pc w → (s.flushEx || s.flushIncorrPredEx) = false →
    (issueStage false s.iss).valid = true →
    Reads1 s.tb.instrIss 31 ∨ Reads2 s.tb.instrIss 31 → s.oldLinkReg = pc + 4

/-- So it is behind every `BLTZAL` and `BGEZAL`. -/
def LinkSettled : Prop := ∀ pc w, IsLinkBranch w → s.SettledBehind pc w

instance (pc w : Word) : Decidable (s.AheadOfIss pc w) :=
  inferInstanceAs (Decidable (_ ∧ _ ∧ _ ∨ _ ∧ _ ∧ _ ∧ _))

instance (pc w : Word) : Decidable (s.SettledBehind pc w) :=
  inferInstanceAs (Decidable (_ → _ → _ → _ → _))

/-- Only what is in EX and in MEM can be ahead. -/
theorem linkSettled_iff :
    s.LinkSettled ↔
      (IsLinkBranch s.tb.instrEx → s.SettledBehind s.tb.pcEx s.tb.instrEx) ∧
        (IsLinkBranch s.tb.instrMem → s.SettledBehind s.tb.pcMem s.tb.instrMem) := by
  refine ⟨fun h => ⟨h _ _, h _ _⟩, fun ⟨hex, hmem⟩ pc w hw hahead => ?_⟩
  rcases hahead with ⟨hv, rfl, rfl⟩ | ⟨hv, rfl, rfl, hno⟩
  · exact hex hw (Or.inl ⟨hv, rfl, rfl⟩)
  · exact hmem hw (Or.inr ⟨hv, rfl, rfl, hno⟩)

instance : Decidable s.LinkSettled := decidable_of_iff' _ s.linkSettled_iff

end Top

/-! ## What the stages hold -/

/-- The registers of the issue stage for the word `w`, fetched from `pc`. -/
structure FetchedFrom (iss : IssPipeReg) (pc w : Word) : Prop where
  instr : iss.instr = w
  nextPc : iss.nextPc = pc + 4

/-- What is valid in a stage is the instruction the testbench has there, and nothing
valid is behind a jump. -/
structure Top.Shadows (s : Top) : Prop where
  iss : s.iss = {} ∨ FetchedFrom s.iss s.tb.pcIss s.tb.instrIss
  ex : s.ex.valid = true → ∃ iss, FetchedFrom iss s.tb.pcEx s.tb.instrEx ∧
    s.ex.toIssueOut = issueStage false iss
  mem : s.mem.valid = true → ∃ iss v1 v2, FetchedFrom iss s.tb.pcMem s.tb.instrMem ∧
    s.mem = (issueStage false iss).toMem v1 v2
  jump : s.ex.jump = true → s.iss = {}

theorem issueStage_bubble_valid : (issueStage false {}).valid = false := by decide

theorem Top.IsReset.shadows {s : Top} (h : s.IsReset) : s.Shadows where
  iss := Or.inl h.iss
  ex hv := by
    rw [h.ex] at hv
    exact absurd hv nofun
  mem hv := by
    rw [h.mem] at hv
    exact absurd hv nofun
  jump hj := by
    rw [h.ex] at hj
    exact absurd hj nofun

section Step

variable {imem : Word → Word} {s : Top}

/-- What the execute register takes over when it is not flushed. -/
theorem clock_ex (hflush : (s.flushEx || s.flushIncorrPredEx) = false) :
    (s.clock imem false).ex =
      { toIssueOut := issueStage false s.iss
        rDataP1 := s.regFileNext (issueStage false s.iss).rs
        rDataP2 := s.regFileNext (issueStage false s.iss).rt
        brnPred := s.iss.brnPred
        nextPredPc := s.iss.nextPredPc } :=
  if_neg (by rw [Bool.false_or, hflush]; exact nofun)

/-- A valid instruction has entered EX from the issue register. -/
theorem clock_ex_valid (hv : (s.clock imem false).ex.valid = true) :
    (s.flushEx || s.flushIncorrPredEx) = false ∧ (issueStage false s.iss).valid = true := by
  cases hflush : s.flushEx || s.flushIncorrPredEx with
  | true =>
      have hex : (s.clock imem false).ex = {} :=
        if_pos (by rw [Bool.false_or, hflush])
      rw [hex] at hv
      exact absurd hv nofun
  | false =>
      rw [clock_ex hflush] at hv
      exact ⟨rfl, hv⟩

/-- What is valid in the issue stage has been fetched. -/
theorem Top.Shadows.fetchedFrom (h : s.Shadows) (hv : (issueStage false s.iss).valid = true) :
    FetchedFrom s.iss s.tb.pcIss s.tb.instrIss := by
  rcases h.iss with hiss | hiss
  · rw [hiss, issueStage_bubble_valid] at hv
    exact absurd hv nofun
  · exact hiss

theorem Top.Shadows.clock (h : s.Shadows) : (s.clock imem false).Shadows where
  iss := by
    by_cases hflush : s.flushIss false || s.flushIncorrPredIss
    · exact Or.inl (if_pos (by rw [Bool.false_or, hflush]))
    · have hiss : (s.clock imem false).iss = _ := if_neg (by simpa using hflush)
      rw [hiss]
      exact Or.inr ⟨rfl, adder_add _ _⟩
  ex hv := by
    obtain ⟨hflush, hvalid⟩ := clock_ex_valid hv
    rw [clock_ex hflush]
    exact ⟨s.iss, h.fetchedFrom hvalid, rfl⟩
  mem hv := by
    obtain ⟨iss, hfrom, hex⟩ := h.ex hv
    refine ⟨iss, s.rDataP1, s.rDataP2, hfrom, ?_⟩
    show s.ex.toMem _ _ = _
    rw [hex]
  jump hj := by
    refine if_pos ?_
    cases hflush : s.flushEx || s.flushIncorrPredEx with
    | true =>
        have hex : (s.clock imem false).ex = {} :=
          if_pos (by rw [Bool.false_or, hflush])
        rw [hex] at hj
        exact absurd hj nofun
    | false =>
        rw [clock_ex hflush] at hj
        have hj' : (issueStage false s.iss).jump = true := hj
        simp [Top.flushIss, hj']

theorem Top.Shadows.run (h : s.Shadows) (t : Nat) : (s.run imem t).Shadows := by
  induction t with
  | zero => exact h
  | succ t ih => exact ih.clock

/-- A port that reads register 31 while MEM has nothing to forward. -/
theorem rDataP1_linkReg (hno : (s.mem.regWr && s.mem.rd == 31) = false)
    (hrs : s.ex.rs = 31) :
    s.rDataP1 = if s.wb.regWr && s.wb.rd == 31 then s.wb.wrData else s.ex.rDataP1 := by
  simp only [Top.rDataP1, fwdSelect, hrs]
  grind

theorem rDataP2_linkReg (hno : (s.mem.regWr && s.mem.rd == 31) = false)
    (hrt : s.ex.rt = 31) :
    s.rDataP2 = if s.wb.regWr && s.wb.rd == 31 then s.wb.wrData else s.ex.rDataP2 := by
  simp only [Top.rDataP2, fwdSelect, hrt]
  grind

/-- Unless the instruction in EX forwards register 31 as a result of its own, the next one
reads it as the instructions ahead leave it. -/
theorem operands_clock (hflush : (s.flushEx || s.flushIncorrPredEx) = false)
    (hno : (s.ex.regWr && s.ex.rd == 31) = false) :
    ((issueStage false s.iss).rs = 31 → (s.clock imem false).rDataP1 = s.oldLinkReg) ∧
      ((issueStage false s.iss).rt = 31 → (s.clock imem false).rDataP2 = s.oldLinkReg) := by
  have hex := @clock_ex imem s hflush
  constructor
  · intro hrs
    have hread : (s.clock imem false).ex.rDataP1 = s.regFileNext 31 := by rw [hex, ← hrs]
    rw [rDataP1_linkReg hno (by rw [hex]; exact hrs), hread]
    rfl
  · intro hrt
    have hread : (s.clock imem false).ex.rDataP2 = s.regFileNext 31 := by rw [hex, ← hrt]
    rw [rDataP2_linkReg hno (by rw [hex]; exact hrt), hread]
    rfl

/-- The hazard unit never takes register 31 from a link branch in EX, and the link address
of a `JAL` is there in time. -/
theorem Top.Shadows.settled (h : s.Shadows) {pc w : Word} (hw : IsLink w)
    (hahead : s.AheadOfIss pc w) (hv : (issueStage false s.iss).valid = true) :
    (s.ex.regWr && s.ex.rd == 31) = false ∧ (IsLinkBranch w ∨ s.oldLinkReg = pc + 4) := by
  obtain ⟨x, hx, hlinks⟩ := hw
  have henc := encodes_of_decodeInstr hx
  rcases hahead with ⟨hex, rfl, rfl⟩ | ⟨hmem, rfl, rfl, hno⟩
  · obtain ⟨iss, hfrom, hdec⟩ := h.ex hex
    rw [← hfrom.instr] at henc
    have hiss := issues henc
    rw [← hdec] at hiss
    cases x with
    | bz f rs imm =>
        have hwr : s.ex.regWr = false := hiss.regWr
        exact ⟨by rw [hwr]; rfl, Or.inl ⟨_, hx, hlinks, rfl⟩⟩
    | jal target =>
        -- a jump in EX has a bubble behind it
        rw [h.jump hiss.jump, issueStage_bubble_valid] at hv
        exact absurd hv nofun
    | r | sh | i | lw | sw | b | j => exact absurd hlinks Bool.false_ne_true
  · have hex : (s.ex.regWr && s.ex.rd == 31) = false := by
      unfold IssueOut.writesLinkReg at hno
      cases hwr : s.ex.regWr <;> simp_all
    refine ⟨hex, ?_⟩
    obtain ⟨iss, v1, v2, hfrom, hdec⟩ := h.mem hmem
    rw [← hfrom.instr] at henc
    have hiss := issues henc
    cases x with
    | bz f rs imm => exact Or.inl ⟨_, hx, hlinks, rfl⟩
    | jal target =>
        refine Or.inr ?_
        have hwr : s.mem.regWr = true := (congrArg MemPipeReg.regWr hdec).trans hiss.regWr
        have hrd : s.mem.rd = 31 := (congrArg MemPipeReg.rd hdec).trans (hiss.rd (Or.inl rfl))
        have hlink : s.mem.useLinkReg = true :=
          (congrArg MemPipeReg.useLinkReg hdec).trans hiss.useLinkReg
        have hseq : s.mem.nextSeqPc = s.tb.pcMem + 4 :=
          (congrArg MemPipeReg.nextSeqPc hdec).trans (hiss.nextSeqPc.trans hfrom.nextPc)
        have hold : s.oldLinkReg = (s.mem.toWb s.dmem).wrData :=
          if_pos (by rw [hwr, hrd]; rfl)
        rw [hold, ← hseq]
        exact if_pos hlink
    | r | sh | i | lw | sw | b | j => exact absurd hlinks Bool.false_ne_true

/-- The ports through which a valid instruction in ISS reads register 31. -/
theorem Top.Shadows.ports (h : s.Shadows) (hv : (issueStage false s.iss).valid = true) :
    (Reads1 s.tb.instrIss 31 → (issueStage false s.iss).rs = 31) ∧
      (Reads2 s.tb.instrIss 31 → (issueStage false s.iss).rt = 31) := by
  have hfrom := h.fetchedFrom hv
  rw [← hfrom.instr]
  exact ⟨fun hr => hr.1, fun hr => hr.1⟩

/-- One clock forwards link addresses correctly exactly if it starts settled. -/
theorem Top.Shadows.linkForwarded_clock (h : s.Shadows) :
    (s.clock imem false).LinkForwarded ↔ s.LinkSettled := by
  constructor
  · intro hfwd pc w hw hahead hflush hv hreads
    obtain ⟨x, hx, hlinks, -⟩ := hw
    have hlink : IsLink w := ⟨x, hx, hlinks⟩
    obtain ⟨hno, -⟩ := h.settled hlink hahead hv
    obtain ⟨hop1, hop2⟩ := @operands_clock imem s hflush hno
    obtain ⟨hport1, hport2⟩ := h.ports hv
    have hex : (s.clock imem false).ex.valid = true := by rw [clock_ex hflush]; exact hv
    obtain ⟨hread1, hread2⟩ := hfwd pc w hlink hahead hex
    rcases hreads with hr | hr
    · rw [← hop1 (hport1 hr)]
      exact hread1 hr
    · rw [← hop2 (hport2 hr)]
      exact hread2 hr
  · intro hsettled pc w hw hahead hex
    obtain ⟨hflush, hv⟩ := clock_ex_valid hex
    have hahead' : s.AheadOfIss pc w := hahead
    obtain ⟨hno, hlink⟩ := h.settled hw hahead' hv
    obtain ⟨hop1, hop2⟩ := @operands_clock imem s hflush hno
    obtain ⟨hport1, hport2⟩ := h.ports hv
    have hold : Reads1 s.tb.instrIss 31 ∨ Reads2 s.tb.instrIss 31 →
        s.oldLinkReg = pc + 4 := by
      intro hreads
      rcases hlink with hbranch | hdone
      · exact hsettled pc w hbranch hahead' hflush hv hreads
      · exact hdone
    exact ⟨fun hr => (hop1 (hport1 hr)).trans (hold (Or.inl hr)),
      fun hr => (hop2 (hport2 hr)).trans (hold (Or.inr hr))⟩

end Step

/-! ## Runs -/

/-- In a run from reset every reader of register 31 behind a link instruction is handed the
link address, which is what the simulator leaves in register 31, exactly if no reader leaves
ISS behind a `BLTZAL` or `BGEZAL` whose link address register 31 does not hold already. -/
theorem link_forwarded_iff {s : Top} (h : s.IsReset) (imem : Word → Word) (t : Nat) :
    ((∀ u ≤ t, (s.run imem u).LinkForwarded) ↔ ∀ u < t, (s.run imem u).LinkSettled) ∧
      ∀ sim : Sim, sim.next = sim.current → IsLink (sim.memRead sim.current.pc) →
        (cycle sim).current.regs 31 = sim.current.pc + 4 := by
  refine ⟨⟨?_, ?_⟩, fun sim hnext hw => cycle_link hnext hw⟩
  · intro hfwd u hu
    exact (h.shadows.run u).linkForwarded_clock.mp (hfwd (u + 1) hu)
  · intro hsettled u hu
    cases u with
    | zero =>
        intro pc w _ _ hex
        have hex' : s.ex.valid = true := hex
        rw [h.ex] at hex'
        exact absurd hex' nofun
    | succ u => exact (h.shadows.run u).linkForwarded_clock.mpr (hsettled u hu)

/-- `BLTZAL r0, 1`, which falls through, and `ADD r2, r31, r0`. -/
def linkReader : Word → Word := fun i => if i = 0 then 0x04100001 else 0x03E01020

/-- The reader right behind the branch is handed 0 instead of 4. -/
theorem link_not_forwarded :
    ¬ ∀ (imem : Word → Word) (s : Top), s.IsReset → s.regFile 0 = 0 →
      ∀ t, (s.run imem t).LinkForwarded := by
  intro hall
  have hfwd := hall linkReader (Top.cleared fun _ => 0) ⟨rfl, rfl, rfl, rfl, rfl⟩ rfl 3
  have hlink : IsLink 0x04100001 := ⟨.bz .bltzal 0 1, by decide, rfl⟩
  have hread : Reads1 0x03E01020 31 := by decide
  obtain ⟨hop, -⟩ := hfwd 0 0x04100001 hlink
    (Or.inl ⟨by decide +kernel, by decide +kernel, by decide +kernel⟩) (by decide +kernel)
  have hinstr : (Top.run linkReader (Top.cleared fun _ => 0) 3).tb.instrEx = 0x03E01020 := by
    decide +kernel
  rw [hinstr] at hop
  exact absurd (hop hread) (by decide +kernel)

/-- `BLTZAL r0, 1`, `BEQ r3, r0, 1`, `ADD r2, r31, r0`, `ADDI r3, r0, 1` and `J 0`: the
reader two behind the branch is passed over in the first round. -/
def linkLoop : Word → Word := fun i =>
  if i = 0 then 0x04100001 else if i = 1 then 0x10600001 else if i = 2 then 0x03E01020
  else if i = 3 then 0x20030001 else 0x08000000

/-- In the second round the reader is in EX while the branch is in WB, and is handed the link
address, which register 31 holds from the first. -/
theorem link_forwarded_iff_linkLoop :
    let s := Top.cleared fun _ => 0
    (∀ u ≤ 12, (s.run linkLoop u).LinkForwarded) ∧ IsLinkBranch (linkLoop 0) ∧
      (s.run linkLoop 11).AheadOfEx 0 (linkLoop 0) ∧ (s.run linkLoop 11).rDataP1 = 4 := by
  intro s
  have hreset : s.IsReset := ⟨rfl, rfl, rfl, rfl, rfl⟩
  have hcheck : (List.range 12).all (fun u => decide (s.run linkLoop u).LinkSettled) = true := by
    decide +kernel
  refine ⟨(link_forwarded_iff hreset linkLoop 12).1.mpr fun u hu => ?_, by decide, Or.inr ?_,
    by decide +kernel⟩
  · exact of_decide_eq_true (List.all_eq_true.mp hcheck u (List.mem_range.mpr hu))
  · exact ⟨by decide +kernel, by decide +kernel, by decide +kernel, by decide +kernel⟩

end SimpleCpu.Mips
