import SimpleCpu.Pipeline.Invariant

/-!
# One clock keeps the invariant

The operands of the execute stage are the sequential ones (`Inv.op1_eq`,
`Inv.op2_eq`), so the stage computes what the sequential machine computes; with
that, `Inv.step` moves every clause of the invariant one clock on.
-/

namespace SimpleCpu.Pipeline

variable {W R D M Mem P : Type} [DecidableEq R]

/-! ## Write-back -/

theorem WriteBack.apply_of_not_written {w : WriteBack W R} {regs : R → W} {r : R}
    (h : w.wrEn = true → w.rd ≠ r) : w.apply regs r = regs r := by
  unfold WriteBack.apply
  split
  next hw => exact Function.update_of_ne (Ne.symm (h hw)) _ _
  next => rfl

theorem WriteBack.apply_of_written {w : WriteBack W R} {regs : R → W} {r : R}
    (hw : w.wrEn = true) (hr : w.rd = r) : w.apply regs r = w.data := by
  subst hr
  simp [WriteBack.apply, hw]

namespace Core

variable {C : Core W R D M Mem P} {K : Nat} {a₀ : Arch W R Mem}

theorem InertWb.apply_eq {w : WriteBack W R} {regs : R → W}
    (h : C.InertWb w) (hz : regs C.zeroReg = C.zeroVal) : w.apply regs = regs := by
  unfold WriteBack.apply
  split
  next hw =>
    obtain ⟨hr, hd⟩ := h.wrEn hw
    rw [hr, hd, ← hz, Function.update_eq_self]
  next => rfl

/-! ## The sequential run -/

@[simp] theorem seqRun_zero : C.seqRun a₀ 0 = a₀ := rfl

@[simp] theorem seqRun_succ (i : Nat) :
    C.seqRun a₀ (i + 1) = C.seqStep (C.seqRun a₀ i) := rfl

/-- The zero register keeps its value as long as regular instructions run. -/
theorem seqRun_zeroReg (hC : C.Lawful)
    (hreg : ∀ i < K, C.Regular (C.seqDec (C.seqRun a₀ i)))
    (hz : a₀.regs C.zeroReg = C.zeroVal) :
    ∀ i ≤ K, (C.seqRun a₀ i).regs C.zeroReg = C.zeroVal := by
  intro i
  induction i with
  | zero => intro _; exact hz
  | succ i ih =>
      intro hi
      by_cases hw : (C.seqWb (C.seqRun a₀ i)).wrEn = true ∧
          (C.seqWb (C.seqRun a₀ i)).rd = C.zeroReg
      · have hdata := (hreg i (by omega)).zeroData _ _ _ hw.1
          (by rw [← hC.finish_rd]; exact hw.2)
        exact (WriteBack.apply_of_written hw.1 hw.2).trans hdata
      · have hno : (C.seqWb (C.seqRun a₀ i)).wrEn = true →
            (C.seqWb (C.seqRun a₀ i)).rd ≠ C.zeroReg :=
          fun h₁ h₂ => hw ⟨h₁, h₂⟩
        exact (WriteBack.apply_of_not_written hno).trans (ih (by omega))

/-! ## Operands -/

section Operands

variable {T : Track} {s : State W R D M Mem P}

/-- A port that forwards `f` from the memory stage delivers the value `r` has after the
two instructions ahead. -/
theorem forwarded_eq (hC : C.Lawful) {r : R} {f v : W} (hv : v = s.regs r)
    (hwb : s.wb.fwdEn = true → s.wb.wrEn = true) (hbyp : C.Bypassed s r)
    (hmid : C.fwdMid s r = true → f = (C.finish s.mid s.mem).data)
    (hzero : (C.finish s.mid s.mem).apply (s.wb.apply s.regs) C.zeroReg = C.zeroVal)
    (hz : s.regs C.zeroReg = C.zeroVal) :
    (if C.fwdMid s r then f else if C.fwdWb s r then s.wb.data else v) =
      (C.finish s.mid s.mem).apply (s.wb.apply s.regs) r := by
  by_cases hr : r = C.zeroReg
  · -- nothing is ever forwarded to the zero register
    have h1 : C.fwdMid s r = false := by
      subst hr; simp only [fwdMid]; grind
    have h2 : C.fwdWb s r = false := by
      subst hr; simp only [fwdWb]; grind
    rw [h1, h2, hr, hzero]
    simpa [hv, hr] using hz
  obtain ⟨hbm, hbw⟩ := hbyp hr
  by_cases hf : C.fwdMid s r = true
  · have hparts : C.fwdEn s.mid = true ∧ C.rd s.mid = r := by
      simp only [fwdMid, Bool.and_eq_true, beq_iff_eq] at hf
      exact ⟨hf.1.1, hf.2⟩
    rw [if_pos hf, hmid hf, WriteBack.apply_of_written]
    · exact hC.fwdEn_wrEn _ _ hparts.1
    · rw [hC.finish_rd]; exact hparts.2
  · -- the memory stage does not write `r`
    have hnm : (C.finish s.mid s.mem).wrEn = true →
        (C.finish s.mid s.mem).rd ≠ r := by
      intro hw hrd
      rw [hC.finish_rd] at hrd
      apply hf
      simp [fwdMid, hbm hw hrd, hrd, hr]
    rw [if_neg hf, WriteBack.apply_of_not_written hnm]
    by_cases hg : C.fwdWb s r = true
    · have hparts : s.wb.fwdEn = true ∧ s.wb.rd = r := by
        simp only [fwdWb, Bool.and_eq_true, beq_iff_eq] at hg
        exact ⟨hg.1.1, hg.2⟩
      rw [if_pos hg, WriteBack.apply_of_written (hwb hparts.1) hparts.2]
    · have hnw : s.wb.wrEn = true → s.wb.rd ≠ r := by
        intro hw hrd
        apply hg
        simp [fwdWb, hbw (by simpa using hf) hw hrd, hrd, hr]
      rw [if_neg hg, WriteBack.apply_of_not_written hnw, hv]

/-- The register file once the write-back stage is done. -/
theorem Inv.regs_mid (h : C.Inv K a₀ T s)
    (hz : ∀ i ≤ K, (C.seqRun a₀ i).regs C.zeroReg = C.zeroVal) (hK : T.iMid ≤ K) :
    s.wb.apply s.regs = (C.seqRun a₀ T.iMid).regs := by
  have hnK : T.n ≤ K := by unfold Track.iMid at hK; omega
  have hregs := h.regs hnK
  cases hT : T.wb with
  | false =>
      have hzero : s.regs C.zeroReg = C.zeroVal := by rw [hregs]; exact hz _ hnK
      rw [(h.wbEmpty hT hnK).apply_eq hzero, hregs]
      simp [Track.iMid, hT]
  | true =>
      have hlt : T.n < K := by simp [Track.iMid, hT] at hK; omega
      rw [h.wbFull hT hlt, hregs]
      simp [Track.iMid, hT, seqStep]

/-- The register file once the write-back and memory stages are done: the one the
instruction in the execute stage has to read. -/
theorem Inv.regs_ex (h : C.Inv K a₀ T s)
    (hz : ∀ i ≤ K, (C.seqRun a₀ i).regs C.zeroReg = C.zeroVal) (hK : T.iEx ≤ K) :
    (C.finish s.mid s.mem).apply (s.wb.apply s.regs) = (C.seqRun a₀ T.iEx).regs := by
  have hmidK : T.iMid ≤ K := by unfold Track.iEx at hK; omega
  have hwb := h.regs_mid hz hmidK
  cases hT : T.mid with
  | false =>
      have hzero : s.wb.apply s.regs C.zeroReg = C.zeroVal := by
        rw [hwb]; exact hz _ hmidK
      rw [((h.midEmpty hT hmidK).finish s.mem).apply_eq hzero, hwb]
      simp [Track.iEx, hT]
  | true =>
      have hlt : T.iMid < K := by simp [Track.iEx, hT] at hK; omega
      rw [h.midFull hT hlt, h.mem hmidK, hwb]
      simp [Track.iEx, hT, seqStep, seqWb]

/-- What is forwarded from the memory stage comes from an instruction. -/
theorem Inv.mid_of_fwdMid (h : C.Inv K a₀ T s) (hK : T.iMid ≤ K) {r : R}
    (hf : C.fwdMid s r = true) : T.mid = true := by
  by_contra hT
  simp only [fwdMid, Bool.and_eq_true, bne_iff_ne, beq_iff_eq] at hf
  exact hf.1.2 ((h.midEmpty (by simpa using hT) hK).fwdEn hf.1.1)

/-- A result in the memory stage is forwarded as it will be written back: a jump is
never followed directly, and nothing else forwards another value. -/
theorem Inv.fwdVal1_eq (h : C.Inv K a₀ T s)
    (hfw : ∀ i < K, C.Forwards (C.seqDec (C.seqRun a₀ i)))
    (hex : T.ex = true) (hK : T.iEx < K) {r : R} (hf : C.fwdMid s r = true) :
    C.fwdVal1 s.mid s.mem = (C.finish s.mid s.mem).data := by
  have hmidK : T.iMid ≤ K := by unfold Track.iEx at hK; omega
  have hT : T.mid = true := h.mid_of_fwdMid hmidK hf
  simp only [fwdMid, Bool.and_eq_true, bne_iff_ne, beq_iff_eq] at hf
  have hlt : T.iMid < K := by simp [Track.iEx, hT] at hK; omega
  have hjump : C.jump (C.seqDec (C.seqRun a₀ T.iMid)) = false := by
    by_contra hj
    have := h.midJump hT hlt (by simpa using hj)
    simp [hex] at this
  have hmid := h.midFull hT hlt
  rw [hmid] at hf ⊢
  exact hfw _ hlt hjump _ _ _ hf.1.1 hf.1.2

/-- If every executed instruction that writes also forwards, nothing is missed. -/
theorem Inv.bypassed (h : C.Inv K a₀ T s) (hC : C.Lawful)
    (hwr : ∀ i < K, (C.seqWb (C.seqRun a₀ i)).wrEn = true →
      C.fwdEn (C.seqMid (C.seqRun a₀ i)) = true)
    (hK : T.iEx ≤ K) (r : R) : C.Bypassed s r := by
  have hmidK : T.iMid ≤ K := by unfold Track.iEx at hK; omega
  have hnK : T.n ≤ K := by unfold Track.iMid at hmidK; omega
  intro hr
  constructor
  · intro hw hrd
    cases hT : T.mid with
    | true =>
        have hlt : T.iMid < K := by simp [Track.iEx, hT] at hK; omega
        have hmid := h.midFull hT hlt
        rw [hmid, h.mem hmidK] at hw
        rw [hmid]
        exact hwr _ hlt hw
    | false =>
        have hzero := (((h.midEmpty hT hmidK).finish s.mem).wrEn hw).1
        rw [hC.finish_rd, hrd] at hzero
        exact absurd hzero hr
  · intro _ hw hrd
    cases hT : T.wb with
    | true =>
        have hlt : T.n < K := by simp [Track.iMid, hT] at hmidK; omega
        have hwb := h.wbFull hT hlt
        rw [hwb] at hw ⊢
        exact (hC.finish_fwdEn _ _).trans (hwr _ hlt hw)
    | false =>
        have hzero := ((h.wbEmpty hT hnK).wrEn hw).1
        rw [hrd] at hzero
        exact absurd hzero hr

/-- What a port delivers to the execute stage. -/
theorem Inv.port_eq (h : C.Inv K a₀ T s) (hC : C.Lawful)
    (hz : ∀ i ≤ K, (C.seqRun a₀ i).regs C.zeroReg = C.zeroVal)
    (hK : T.iEx < K) {r : R} {f v : W} (hv : v = s.regs r) (hbyp : C.Bypassed s r)
    (hfwd : C.fwdMid s r = true → f = (C.finish s.mid s.mem).data) :
    (if C.fwdMid s r then f else if C.fwdWb s r then s.wb.data else v) =
      (C.seqRun a₀ T.iEx).regs r := by
  have hall := h.regs_ex hz (by omega)
  have hnK : T.n ≤ K := by unfold Track.iEx Track.iMid at hK; omega
  rw [← hall]
  refine forwarded_eq hC hv h.wbFwd hbyp hfwd ?_ ?_
  · rw [hall]; exact hz _ (by omega)
  · rw [h.regs hnK]; exact hz _ hnK

theorem Inv.op1_eq (h : C.Inv K a₀ T s) (hC : C.Lawful)
    (hz : ∀ i ≤ K, (C.seqRun a₀ i).regs C.zeroReg = C.zeroVal)
    (hex : T.ex = true) (hK : T.iEx < K)
    (hbyp : C.Bypassed s (C.rs1 s.ex.dec))
    (hfwd : C.fwdMid s (C.rs1 s.ex.dec) = true →
      C.fwdVal1 s.mid s.mem = (C.finish s.mid s.mem).data) :
    C.op1 s = (C.seqRun a₀ T.iEx).regs (C.rs1 s.ex.dec) :=
  h.port_eq hC hz hK (h.exRead1 hex) hbyp hfwd

theorem Inv.op2_eq (h : C.Inv K a₀ T s) (hC : C.Lawful)
    (hz : ∀ i ≤ K, (C.seqRun a₀ i).regs C.zeroReg = C.zeroVal)
    (hex : T.ex = true) (hK : T.iEx < K)
    (hbyp : C.Bypassed s (C.rs2 s.ex.dec))
    (hfwd : C.fwdMid s (C.rs2 s.ex.dec) = true →
      C.fwdVal2 s.mid = (C.finish s.mid s.mem).data) :
    C.op2 s = (C.seqRun a₀ T.iEx).regs (C.rs2 s.ex.dec) :=
  h.port_eq hC hz hK (h.exRead2 hex) hbyp hfwd

/-- The execute stage computes what the sequential machine computes. -/
theorem Inv.execute_eq (h : C.Inv K a₀ T s) (hC : C.Lawful)
    (hz : ∀ i ≤ K, (C.seqRun a₀ i).regs C.zeroReg = C.zeroVal)
    (hhazard1 : C.NoHazard1 s) (hhazard2 : C.NoHazard2 s) (hex : T.ex = true) (hK : T.iEx < K) :
    C.exec s.ex.dec (C.op1 s) (C.op2 s) = C.seqMid (C.seqRun a₀ T.iEx) ∧
      C.exTaken s = C.seqTaken (C.seqRun a₀ T.iEx) := by
  have hdec := h.exFull hex hK
  have h1 : ∀ v2, C.exec s.ex.dec (C.op1 s) v2 =
        C.exec s.ex.dec ((C.seqRun a₀ T.iEx).regs (C.rs1 s.ex.dec)) v2 ∧
      C.taken s.ex.dec (C.op1 s) v2 =
        C.taken s.ex.dec ((C.seqRun a₀ T.iEx).regs (C.rs1 s.ex.dec)) v2 := by
    intro v2
    rcases hhazard1 with hign | ⟨hbyp, hfwd⟩
    · exact hign _ _ _
    · rw [h.op1_eq hC hz hex hK hbyp hfwd]; exact ⟨rfl, rfl⟩
  have h2 : ∀ v1, C.exec s.ex.dec v1 (C.op2 s) =
        C.exec s.ex.dec v1 ((C.seqRun a₀ T.iEx).regs (C.rs2 s.ex.dec)) ∧
      C.taken s.ex.dec v1 (C.op2 s) =
        C.taken s.ex.dec v1 ((C.seqRun a₀ T.iEx).regs (C.rs2 s.ex.dec)) := by
    intro v1
    rcases hhazard2 with hign | ⟨hbyp, hfwd⟩
    · exact hign _ _ _
    · rw [h.op2_eq hC hz hex hK hbyp hfwd]; exact ⟨rfl, rfl⟩
  constructor
  · rw [(h1 _).1, (h2 _).1, hdec]; rfl
  · unfold exTaken
    rw [(h1 _).2, (h2 _).2, hdec]; rfl

end Operands

/-! ## Where fetch goes next -/

section Signals

variable {s : State W R D M Mem P}

theorem exTaken_branch (hC : C.Lawful) (h : C.exTaken s = true) :
    C.branch s.ex.dec = true :=
  hC.taken_branch _ _ _ h

variable [DecidableEq W]

theorem exCorr_pred (h : C.exCorr s = true) : s.ex.pred = C.exTaken s := by
  simp only [exCorr, Bool.and_eq_true, beq_iff_eq] at h
  exact h.1

theorem exCorr_target (h : C.exCorr s = true) :
    C.brnTarget s.ex.dec = s.ex.predPc := by
  simp only [exCorr, Bool.and_eq_true, beq_iff_eq] at h
  exact h.2

theorem flushEx_of_redirect (h : C.redirect s = true) : C.flushEx s = true := by
  simp only [redirect, flushEx] at *
  grind

theorem flushIss_of_redirect (h : C.redirect s = true) : C.flushIss s = true := by
  simp only [redirect, flushIss] at *
  grind

/-- With no redirection only a jump clears the issue register. -/
theorem flushIss_eq (h : C.redirect s = false) : C.flushIss s = C.jump (C.issDec s) := by
  simp only [redirect, flushIss] at *
  grind

/-- With no redirection only a jump that carries a prediction clears the execute
register. -/
theorem flushEx_eq (h : C.redirect s = false) (hj : C.jump s.ex.dec = false) :
    C.flushEx s = false := by
  simp only [redirect, flushEx] at *
  grind

theorem redirect_of_inert (hC : C.Lawful) (hd : C.InertDec s.ex.dec)
    (hp : s.ex.pred = false) : C.redirect s = false := by
  have ht : C.exTaken s = false := by
    by_contra h
    have := exTaken_branch hC (by simpa using h)
    simp [hd.branch] at this
  simp [redirect, ht, hp]

/-- A redirection goes to the right successor of the instruction in the execute
stage. -/
theorem nextPc_of_redirect (hC : C.Lawful) (h : C.redirect s = true)
    (hj : C.jump s.ex.dec = false) :
    C.nextPc s =
      if C.exTaken s then C.brnTarget s.ex.dec else C.seqPc s.ex.dec := by
  simp only [redirect, hj, Bool.not_false, Bool.true_and] at h
  have hcorr : C.exCorr s = false := by grind
  unfold nextPc nextCalPc
  cases ht : C.exTaken s with
  | true =>
      have hb := exTaken_branch hC ht
      rw [hb, hcorr]
      cases s.ex.pred <;> simp
  | false =>
      have hpred : s.ex.pred = true := by grind
      rw [hj, hpred, hcorr]
      cases C.branch s.ex.dec <;> simp

/-- With nothing to correct, fetch turns to the target of a jump, or follows the prediction
unless a branch is in the execute stage. -/
theorem nextPc_of_no_redirect (h : C.redirect s = false)
    (hjb : C.jump s.ex.dec = true → C.branch s.ex.dec = false) :
    C.nextPc s =
      if !C.jump (C.issDec s) && !C.branch s.ex.dec && (C.predict s.bpred s.pc).1 then
        (C.predict s.bpred s.pc).2
      else if C.jump (C.issDec s) then C.jumpTarget s.iss.instr s.iss.pc s.iss.nextSeq
      else C.nextSeq s.pc := by
  have hp := exCorr_pred (C := C) (s := s)
  simp only [redirect] at h
  have hstraight :
      (!C.jump s.ex.dec && !C.branch s.ex.dec && s.ex.pred && !C.exCorr s) = false := by
    grind
  have hbranch : (C.branch s.ex.dec && s.ex.pred && !C.exCorr s) = false := by grind
  have htaken : (C.exTaken s && !(s.ex.pred && C.exCorr s)) = false := by grind
  unfold nextPc nextCalPc
  rw [hstraight, hbranch, htaken]
  rfl

theorem nextPc_of_jump (h : C.redirect s = false)
    (hjb : C.jump s.ex.dec = true → C.branch s.ex.dec = false)
    (hj : C.jump (C.issDec s) = true) :
    C.nextPc s = C.jumpTarget s.iss.instr s.iss.pc s.iss.nextSeq := by
  rw [nextPc_of_no_redirect h hjb, hj]
  rfl

/-- A fetch behind anything but a jump. -/
theorem nextPc_of_fetch (h : C.redirect s = false)
    (hjb : C.jump s.ex.dec = true → C.branch s.ex.dec = false)
    (hj : C.jump (C.issDec s) = false) :
    C.nextPc s =
      if (C.predict s.bpred s.pc).1 && !C.branch s.ex.dec then
        (C.predict s.bpred s.pc).2
      else C.nextSeq s.pc := by
  rw [nextPc_of_no_redirect h hjb, hj, Bool.not_false, Bool.true_and, Bool.and_comm]
  rfl

end Signals
end Core

end SimpleCpu.Pipeline
