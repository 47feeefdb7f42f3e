import SimpleCpu.RiscV.Recovery

/-!
# Indirect jumps in the RISC-V pipeline

The top level has a target and a jump signal for `JALR`, and the control table a row, but
the decoder has no class for opcode 0x67.  A jump of the issue stage turns fetch and
discards the word behind it (`Top.redirects_iff`), which `JAL` uses (`jal_jumps_and_links`)
and `JALR` never does (`jalr_never_jumps_and_links`).
-/

namespace SimpleCpu.RiscV

open SimpleCpu.Rtl SimpleCpu.RiscV.Isa

namespace Top

section Definitions

variable (imem : Word → Word) (s : Top)

/-- The word in the issue stage turns fetch to `target`, and the word fetched behind it is
discarded. -/
structure Redirects (target : Word) : Prop where
  fetch : (s.clock imem false).currPc = target
  discard : (s.clock imem false).iss = {}

/-- When the word in the issue stage retires, the address after it is written to its
destination.  `x0` takes no value. -/
def Links : Prop :=
  Isa.rd s.iss.instr ≠ 0 →
    (s.run imem 3).wb.rfEn = true ∧ (s.run imem 3).wb.rd = Isa.rd s.iss.instr ∧
      (s.run imem 3).wb.wrData = s.iss.currPc + 4

end Definitions

section Jumps

variable (imem : Word → Word) {s : Top}

/-- The flush terms while the execute stage lets the younger words pass. -/
theorem flushes_of_passes (hpass : s.squashes = false) :
    (s.branchTaken && !s.brnCorrPred) = false ∧ s.flushIncorrPredEx = false ∧
      s.flushIncorrPredIss = false := by
  unfold squashes at hpass
  simp only [Bool.or_eq_false_iff] at hpass
  exact ⟨hpass.1.2, hpass.1.1.2, hpass.2⟩

/-- The word moves on to the execute stage. -/
theorem ex_of_passes (hpass : s.squashes = false) :
    (s.clock imem false).ex.toIssueOut = issueStage false s.iss := by
  obtain ⟨hbr, hinc, -⟩ := flushes_of_passes hpass
  have hflush : (false || (s.flushEx || s.flushIncorrPredEx)) = false := by
    unfold flushEx
    rw [hbr, hinc]
    rfl
  unfold clock
  simp only [hflush, Bool.false_eq_true, if_false]

/-- The word behind is discarded exactly at a jump. -/
theorem iss_of_passes (hpass : s.squashes = false) :
    (s.clock imem false).iss = {} ↔ (issueStage false s.iss).jump = true := by
  obtain ⟨hbr, -, hinc⟩ := flushes_of_passes hpass
  have hflush : (false || (s.flushIss false || s.flushIncorrPredIss)) =
      (issueStage false s.iss).jump := by
    unfold flushIss
    rw [hbr, hinc, Bool.false_or, Bool.false_or, Bool.or_false]
  unfold clock
  simp only [hflush]
  cases (issueStage false s.iss).jump with
  | true => exact iff_of_true rfl rfl
  | false =>
      refine iff_of_false (fun h => ?_) Bool.false_ne_true
      -- a word that was fetched has an address or an address after it
      have hpc : s.currPc = 0 := congrArg IssPipeReg.currPc h
      have hnext : s.nextSeqPc = 0 := congrArg IssPipeReg.nextPc h
      unfold nextSeqPc at hnext
      rw [hpc] at hnext
      exact absurd hnext (by decide)

theorem brnPred_of_corr (h : s.brnCorrPred = true) : s.ex.brnPred = s.branchTaken := by
  unfold brnCorrPred at h
  exact beq_iff_eq.mp (Bool.and_eq_true_iff.mp h).1

/-- Neither mux in front of the program counter comes before the jump. -/
theorem nextPc_of_jump (hpass : s.squashes = false)
    (hjump : (issueStage false s.iss).jump = true) : s.nextPc false = nextJmpPc s.iss := by
  obtain ⟨hbr, hinc, -⟩ := flushes_of_passes hpass
  have hpred : (s.ex.brnPred && !s.brnCorrPred) = false := hinc
  have hseq : (!s.ex.jump && !s.ex.isBType && s.ex.brnPred && !s.brnCorrPred) = false := by
    rw [Bool.and_assoc, hpred, Bool.and_false]
  have hforce : (s.ex.isBType && s.ex.brnPred && !s.brnCorrPred) = false := by
    rw [Bool.and_assoc, hpred, Bool.and_false]
  have htaken : (s.branchTaken && !(s.ex.brnPred && s.brnCorrPred)) = false := by
    cases ht : s.branchTaken with
    | false => rfl
    | true =>
        have hcorr : s.brnCorrPred = true := by simpa [ht] using hbr
        rw [brnPred_of_corr hcorr, hcorr, ht]
        rfl
  unfold nextPc nextCalPc forcePcUpdate
  simp only [hseq, hforce, htaken, hjump, Bool.not_true, Bool.false_and, Bool.false_eq_true,
    if_false, if_true]

theorem redirects_iff (hpass : s.squashes = false) (target : Word) :
    s.Redirects imem target ↔
      (issueStage false s.iss).jump = true ∧ nextJmpPc s.iss = target := by
  constructor
  · rintro ⟨hfetch, hdiscard⟩
    have hjump := (iss_of_passes imem hpass).mp hdiscard
    exact ⟨hjump, (nextPc_of_jump hpass hjump).symm.trans hfetch⟩
  · rintro ⟨hjump, htarget⟩
    exact ⟨(nextPc_of_jump hpass hjump).trans htarget, (iss_of_passes imem hpass).mpr hjump⟩

/-- What reaches the write-back stage. -/
theorem wb_of_passes (hpass : s.squashes = false) :
    (s.run imem 3).wb.rfEn = (issueStage false s.iss).rfEn ∧
      (s.run imem 3).wb.rd = Isa.rd s.iss.instr ∧
      (s.run imem 3).wb.wbSel = (issueStage false s.iss).wbSel ∧
      (s.run imem 3).wb.nextSeqPc = s.iss.nextPc := by
  have hex := ex_of_passes imem hpass
  refine ⟨?_, ?_, ?_, ?_⟩
  · exact congrArg IssueOut.rfEn hex
  · exact congrArg IssueOut.rd hex
  · exact congrArg IssueOut.wbSel hex
  · exact congrArg IssueOut.nextSeqPc hex

/-- The link is written exactly when the control word of the instruction says so. -/
theorem links_iff (hpass : s.squashes = false) (hseq : s.iss.nextPc = s.iss.currPc + 4)
    (hsel : (issueStage false s.iss).wbSel = 0b10) :
    s.Links imem ↔ (Isa.rd s.iss.instr ≠ 0 → (issueStage false s.iss).rfEn = true) := by
  obtain ⟨hen, hrd, hwb, hnext⟩ := wb_of_passes imem hpass
  unfold Links
  refine imp_congr_right fun hne => ?_
  rw [hen]
  refine ⟨And.left, fun h => ⟨h, hrd, ?_⟩⟩
  unfold WbPipeReg.wrData
  rw [hrd, hwb, hsel, hnext, hseq, if_pos hne]
  rfl

end Jumps

end Top

/-! ## The two jumps -/

section Instructions

variable (imem : Word → Word) {s : Top}

/-- `JAL` turns fetch to its target and writes the link. -/
theorem jal_jumps_and_links (hjal : opcode s.iss.instr = J_TYPE) (hpass : s.squashes = false)
    (hseq : s.iss.nextPc = s.iss.currPc + 4) :
    s.Redirects imem (s.iss.currPc + (immJ s.iss.instr ++ 0#1).signExtend 32) ∧
      s.Links imem := by
  have henc : Encodes s.iss.instr _ := .jal hjal
  have hissue := issues henc
  refine ⟨(Top.redirects_iff imem hpass _).mpr ⟨hissue.jump, nextJmpPc_eq henc⟩, ?_⟩
  exact (Top.links_iff imem hpass hseq hissue.wbSel).mpr fun _ => hissue.rfEn

/-- What the issue stage makes of opcode 0x67: the word of no class. -/
theorem issueStage_jalr {iss : IssPipeReg} (hjalr : opcode iss.instr = I_TYPE_2) :
    (issueStage false iss).valid = false ∧ (issueStage false iss).jump = false ∧
      (issueStage false iss).rfEn = false := by
  refine ⟨?_, ?_, ?_⟩
  · simp [issueStage, decode_eq, hjalr]
  · simp [issueStage, decode_eq, Decode.jalr, hjalr]
  · simp [issueStage, decode_eq, control, Controls.ofBits, hjalr]

/-- The address that `JALR` jumps to, from the value of `rs1`. -/
def jalrTarget (w a : Word) : Word := (a + (immI w).signExtend 32) &&& 0xFFFFFFFE

/-- Whatever the value `a` of `rs1` and the program, `JALR` does not turn fetch to its
target, and it writes the link only where there is none to write. -/
theorem jalr_never_jumps_and_links (hjalr : opcode s.iss.instr = I_TYPE_2)
    (hpass : s.squashes = false) (a : Word) :
    ¬ s.Redirects imem (jalrTarget s.iss.instr a) ∧
      (s.Links imem ↔ Isa.rd s.iss.instr = 0) := by
  obtain ⟨-, hjump, hen⟩ := issueStage_jalr hjalr
  constructor
  · intro h
    have htrue := ((Top.redirects_iff imem hpass _).mp h).1
    exact Bool.false_ne_true (hjump.symm.trans htrue)
  · constructor
    · intro h
      by_contra hrd
      have htrue := (Top.wb_of_passes imem hpass).1.symm.trans (h hrd).1
      exact Bool.false_ne_true (hen.symm.trans htrue)
    · exact fun hrd hne => absurd hrd hne

end Instructions

/-- `LUI x2, 2` and `JALR x1, 0x20(x2)`. -/
def jalrProgram (i : Word) : Word :=
  if i = 0 then 0x00002137 else if i = 1 then 0x020100E7 else 0

/-- `JALR` of the program in the issue stage. -/
def jalrInIss : Top := (Top.cleared fun _ => 0).run jalrProgram 2

theorem jalr_never_jumps_and_links_run :
    ¬ jalrInIss.Redirects jalrProgram 0x2020 ∧ ¬ jalrInIss.Links jalrProgram :=
  have h := jalr_never_jumps_and_links jalrProgram (s := jalrInIss) (by decide +kernel)
    (by decide +kernel) 0x2000
  ⟨h.1, fun hlinks => absurd (h.2.mp hlinks) (by decide +kernel)⟩

/-- Fetch goes on at the second word behind the jump, and no link is written. -/
theorem jalr_falls_through :
    jalrInIss.iss.instr = 0x020100E7 ∧ jalrTarget 0x020100E7 0x2000 = 0x2020 ∧
      (jalrInIss.clock jalrProgram false).currPc = 0x200C ∧
      ¬ (jalrInIss.Redirects jalrProgram (jalrTarget 0x020100E7 0x2000) ∧
        jalrInIss.Links jalrProgram) := by
  have hpc : (jalrInIss.clock jalrProgram false).currPc = 0x200C := by decide +kernel
  refine ⟨by decide +kernel, by decide +kernel, hpc, ?_⟩
  rintro ⟨⟨hfetch, -⟩, -⟩
  exact absurd (hpc.symm.trans hfetch) (by decide +kernel)

end SimpleCpu.RiscV
