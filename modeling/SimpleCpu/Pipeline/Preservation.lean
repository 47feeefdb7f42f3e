import SimpleCpu.Pipeline.Step

/-!
# Preservation of the invariant

Each clause of `Inv` is moved one clock on by a lemma of its own; `Inv.step` puts
them together.  The clauses about fetch rest on two facts: without a redirection
the issue stage holds the next instruction (`StepHyps.iss_pc`), and with one the
address fetched next is its address (`StepHyps.succ_pc`).
-/

namespace SimpleCpu.Pipeline

variable {W R D M Mem P : Type} [DecidableEq W] [DecidableEq R]

/-! ## The occupancy one clock on -/

namespace Core

variable {C : Core W R D M Mem P} {K : Nat} {a₀ : Arch W R Mem}
  {T : Track} {s : State W R D M Mem P}

@[simp] theorem stepTrack_n : (C.stepTrack s T).n = T.iMid := rfl

@[simp] theorem stepTrack_iMid : (C.stepTrack s T).iMid = T.iEx := rfl

@[simp] theorem stepTrack_iEx : (C.stepTrack s T).iEx = T.iIss := rfl

@[simp] theorem stepTrack_wb : (C.stepTrack s T).wb = T.mid := rfl

@[simp] theorem stepTrack_mid : (C.stepTrack s T).mid = T.ex := rfl

@[simp] theorem stepTrack_ex :
    (C.stepTrack s T).ex = (T.iss && !C.flushEx s) := rfl

@[simp] theorem stepTrack_iss : (C.stepTrack s T).iss = !C.flushIss s := rfl

theorem stepTrack_iIss :
    (C.stepTrack s T).iIss = T.iIss + (T.iss && !C.flushEx s).toNat := rfl

/-- An instruction enters the execute register only from the right path. -/
theorem entering_ex (hex : (C.stepTrack s T).ex = true) :
    T.iss = true ∧ C.flushEx s = false ∧ C.redirect s = false := by
  simp only [stepTrack_ex, Bool.and_eq_true, Bool.not_eq_true'] at hex
  refine ⟨hex.1, hex.2, ?_⟩
  by_contra hr
  have := flushEx_of_redirect (C := C) (s := s) (by simpa using hr)
  simp [hex.2] at this

theorem entering_iss (hiss : (C.stepTrack s T).iss = true) :
    C.flushIss s = false ∧ C.redirect s = false ∧ C.jump (C.issDec s) = false := by
  simp only [stepTrack_iss, Bool.not_eq_true'] at hiss
  have hr : C.redirect s = false := by
    by_contra hr
    have := flushIss_of_redirect (C := C) (s := s) (by simpa using hr)
    simp [hiss] at this
  exact ⟨hiss, hr, by rw [← flushIss_eq hr]; exact hiss⟩

theorem step_ex (hex : (C.stepTrack s T).ex = true) : (C.step s).ex = C.issued s := by
  show (if C.flushEx s then C.exBubble else C.issued s) = _
  simp [(entering_ex hex).2.1]

theorem step_iss (hiss : (C.stepTrack s T).iss = true) : (C.step s).iss = C.fetched s := by
  show (if C.flushIss s then C.issBubble else C.fetched s) = _
  simp [(entering_iss hiss).1]

/-- What the proof of one step is given. -/
structure StepHyps (C : Core W R D M Mem P) (K : Nat) (a₀ : Arch W R Mem) (T : Track)
    (s : State W R D M Mem P) : Prop where
  lawful : C.Lawful
  regular : ∀ i < K, C.Regular (C.seqDec (C.seqRun a₀ i))
  zeroReg : ∀ i ≤ K, (C.seqRun a₀ i).regs C.zeroReg = C.zeroVal
  inv : C.Inv K a₀ T s
  clean : C.Clean s K T

namespace StepHyps

variable (h : StepHyps C K a₀ T s)

include h

theorem ex_empty (hex : T.ex = false) (hK : T.iEx ≤ K) : C.redirect s = false := by
  obtain ⟨hd, hp⟩ := h.inv.exEmpty hex hK
  exact redirect_of_inert h.lawful hd hp

/-- A tracked jump in the execute stage is not a branch. -/
theorem ex_jump_not_branch (hK : T.iIss ≤ K) (hj : C.jump s.ex.dec = true) :
    C.branch s.ex.dec = false := by
  unfold Track.iIss at hK
  cases hex : T.ex with
  | false => exact (h.inv.exEmpty hex (by omega)).1.branch
  | true =>
      have hlt : T.iEx < K := by simp [hex] at hK; omega
      rw [h.inv.exFull hex hlt] at hj ⊢
      exact (h.regular _ hlt).jump_not_branch hj

/-- An instruction in the issue stage that is not redirected away moves on. -/
theorem flushEx_false (hr : C.redirect s = false) (hiss : T.iss = true)
    (hK : T.iIss ≤ K) : C.flushEx s = false := by
  apply flushEx_eq hr
  unfold Track.iIss at hK
  cases hex : T.ex with
  | false => exact (h.inv.exEmpty hex (by omega)).1.jump
  | true =>
      have hlt : T.iEx < K := by simp [hex] at hK; omega
      by_contra hj
      have := h.inv.exJump hex hlt (by simpa using hj)
      simp [hiss] at this

/-- A redirection comes from a tracked instruction that is no jump. -/
theorem redirect_cases (hr : C.redirect s = true) (hK : T.iIss ≤ K) :
    T.ex = true ∧ T.iEx < K ∧ C.jump s.ex.dec = false := by
  unfold Track.iIss at hK
  cases hex : T.ex with
  | false =>
      have := h.ex_empty hex (by omega)
      simp [hr] at this
  | true =>
      have hlt : T.iEx < K := by simp [hex] at hK; omega
      refine ⟨rfl, hlt, ?_⟩
      by_contra hj
      have hj' : C.jump s.ex.dec = true := by simpa using hj
      have hb := h.ex_jump_not_branch (by simp [Track.iIss, hex]; omega) hj'
      have ht : C.exTaken s = false := by
        by_contra ht
        have := exTaken_branch h.lawful (s := s) (by simpa using ht)
        simp [hb] at this
      simp [redirect, ht, hj'] at hr

/-- The execute stage computes what the sequential machine computes. -/
theorem execute (hex : T.ex = true) (hK : T.iEx < K) :
    C.exec s.ex.dec (C.op1 s) (C.op2 s) = C.seqMid (C.seqRun a₀ T.iEx) ∧
      C.exTaken s = C.seqTaken (C.seqRun a₀ T.iEx) :=
  h.inv.execute_eq h.lawful h.zeroReg (h.clean.hazard1 hex hK) (h.clean.hazard2 hex hK) hex
    hK

/-- An instruction in the execute stage that is no jump is followed by its branch
target or by the next word. -/
theorem succ_pc (hex : T.ex = true) (hK : T.iEx < K) (hj : C.jump s.ex.dec = false) :
    (C.seqRun a₀ T.iIss).pc =
      if C.exTaken s then C.brnTarget s.ex.dec else C.seqPc s.ex.dec := by
  have hdec := h.inv.exFull hex hK
  have hi : T.iIss = T.iEx + 1 := by simp [Track.iIss, hex]
  rw [hi, (h.execute hex hK).2, seqRun_succ]
  rw [hdec] at hj ⊢
  simp only [seqStep, seqPcNext, hj]
  simp only [seqDec, h.lawful.seqPc_decode]
  simp

/-- Without a redirection the issue stage holds the next instruction. -/
theorem iss_pc (hr : C.redirect s = false) (hiss : T.iss = true) (hK : T.iIss < K) :
    s.iss.pc = (C.seqRun a₀ T.iIss).pc := by
  cases hex : T.ex with
  | false => exact h.inv.issAlone hex hiss hK
  | true =>
      have hlt : T.iEx < K := by simp [Track.iIss, hex] at hK; omega
      have hj : C.jump s.ex.dec = false := by
        by_contra hj
        have := h.inv.exJump hex hlt (by simpa using hj)
        simp [hiss] at this
      rw [h.inv.issBehind hex hiss hlt, h.succ_pc hex hlt hj]
      have hshadow := h.clean.shadow hex hlt
      cases ht : C.exTaken s with
      | true =>
          -- taken without a redirection: the prediction was right, and followed
          have hc : C.exCorr s = true := by
            by_contra hc
            simp [redirect, ht, hc] at hr
          have hp : s.ex.pred = true := by rw [exCorr_pred hc, ht]
          have htgt := exCorr_target hc
          cases hsh : T.shEx with
          | false => simp [hp, htgt]
          | true => simp [hshadow hsh ht hc]
      | false =>
          -- not taken without a redirection: nothing had been predicted
          have hp : s.ex.pred = false := by
            by_contra hp
            have hc : C.exCorr s = true := by
              by_contra hc
              simp [redirect, hj, hp, hc] at hr
            exact hp (by rw [exCorr_pred hc, ht])
          simp [hp]

/-- The decoded instruction that leaves the issue stage. -/
theorem issDec_eq (hr : C.redirect s = false) (hiss : T.iss = true) (hK : T.iIss < K) :
    C.issDec s = C.seqDec (C.seqRun a₀ T.iIss) := by
  obtain ⟨hi, hn⟩ := h.inv.issWord hiss
  unfold issDec seqDec
  rw [hi, hn, h.iss_pc hr hiss hK]

/-! ## Clause by clause -/

theorem step_regs (hK : (C.stepTrack s T).n ≤ K) :
    (C.step s).regs = (C.seqRun a₀ (C.stepTrack s T).n).regs :=
  h.inv.regs_mid h.zeroReg hK

theorem step_mem (hK : (C.stepTrack s T).iMid ≤ K) :
    (C.step s).mem = (C.seqRun a₀ (C.stepTrack s T).iMid).mem := by
  simp only [stepTrack_iMid] at hK ⊢
  have hmK : T.iMid ≤ K := by unfold Track.iEx at hK; omega
  show C.store s.mid s.mem = _
  cases hT : T.mid with
  | false =>
      rw [(h.inv.midEmpty hT hmK).store, h.inv.mem hmK]
      simp [Track.iEx, hT]
  | true =>
      have hlt : T.iMid < K := by simp [Track.iEx, hT] at hK; omega
      rw [h.inv.midFull hT hlt, h.inv.mem hmK]
      simp [Track.iEx, hT, seqStep]

theorem step_wb (hT : T.mid = true) (hK : T.iMid < K) :
    (C.step s).wb = C.seqWb (C.seqRun a₀ T.iMid) := by
  show C.finish s.mid s.mem = _
  rw [h.inv.midFull hT hK, h.inv.mem (by omega)]
  rfl

theorem step_exEmpty (hex : (C.stepTrack s T).ex = false) :
    C.InertDec (C.step s).ex.dec ∧ (C.step s).ex.pred = false := by
  show C.InertDec (if C.flushEx s then C.exBubble else C.issued s).dec ∧
    (if C.flushEx s then C.exBubble else C.issued s).pred = false
  cases hf : C.flushEx s with
  | true => exact ⟨h.lawful.exBubble_inert, h.lawful.exBubble_pred⟩
  | false =>
      have hiss : T.iss = false := by simpa [hf] using hex
      have hb := h.inv.issEmpty hiss
      simp only [issued, issDec, hb]
      exact ⟨h.lawful.issBubble_inert, h.lawful.issBubble_pred⟩

/-- With the issue register cleared, fetch is at the next instruction: either the
execute stage has redirected it, or a jump has. -/
theorem step_fetchNext (hiss : (C.stepTrack s T).iss = false)
    (hK : (C.stepTrack s T).iIss ≤ K) :
    (C.step s).pc = (C.seqRun a₀ (C.stepTrack s T).iIss).pc := by
  have hflush : C.flushIss s = true := by simpa using hiss
  have hIss : T.iIss ≤ K := by rw [stepTrack_iIss] at hK; omega
  show C.nextPc s = _
  rw [stepTrack_iIss] at hK ⊢
  cases hr : C.redirect s with
  | true =>
      obtain ⟨hex, hlt, hj⟩ := h.redirect_cases hr hIss
      rw [nextPc_of_redirect h.lawful hr hj, flushEx_of_redirect hr]
      simp [h.succ_pc hex hlt hj]
  | false =>
      have hj : C.jump (C.issDec s) = true := by rw [← flushIss_eq hr]; exact hflush
      have hT : T.iss = true := by
        by_contra hT
        have hb := h.inv.issEmpty (by simpa using hT)
        rw [issDec, hb, h.lawful.issBubble_inert.jump] at hj
        simp at hj
      have hf := h.flushEx_false hr hT hIss
      have hlt : T.iIss < K := by simp [hT, hf] at hK; omega
      rw [nextPc_of_jump hr (h.ex_jump_not_branch hIss) hj]
      obtain ⟨hi, hn⟩ := h.inv.issWord hT
      have hpc := h.iss_pc hr hT hlt
      have hdec := h.issDec_eq hr hT hlt
      rw [hdec] at hj
      simp only [hT, hf, Bool.not_false, Bool.and_self, Bool.toNat_true, seqRun_succ]
      simp [seqStep, seqPcNext, hj, hi, hn, hpc]

theorem step_fetchBehind (hiss : (C.stepTrack s T).iss = true)
    (hK : (C.stepTrack s T).iIss < K) :
    (C.step s).pc = if (C.step s).iss.pred && !(C.stepTrack s T).shIss then
      (C.step s).iss.predPc else (C.step s).iss.nextSeq := by
  obtain ⟨-, hr, hj⟩ := entering_iss hiss
  have hIss : T.iIss ≤ K := by rw [stepTrack_iIss] at hK; omega
  rw [step_iss hiss]
  exact nextPc_of_fetch hr (h.ex_jump_not_branch hIss) hj

/-- With nothing entering the execute stage, the word entering the issue stage is the
next instruction. -/
theorem step_issAlone (hex : (C.stepTrack s T).ex = false)
    (hiss : (C.stepTrack s T).iss = true) (hK : (C.stepTrack s T).iIss < K) :
    (C.step s).iss.pc = (C.seqRun a₀ (C.stepTrack s T).iIss).pc := by
  obtain ⟨-, hr, -⟩ := entering_iss hiss
  rw [stepTrack_ex] at hex
  have hi : (C.stepTrack s T).iIss = T.iIss := by rw [stepTrack_iIss, hex]; rfl
  rw [hi] at hK ⊢
  have hT : T.iss = false := by
    by_contra hT
    have hT' : T.iss = true := by simpa using hT
    simp [hT', h.flushEx_false hr hT' (by omega)] at hex
  rw [step_iss hiss]
  exact h.inv.fetchNext hT (by omega)

theorem step_issBehind (hex : (C.stepTrack s T).ex = true)
    (hiss : (C.stepTrack s T).iss = true) (hK : (C.stepTrack s T).iEx < K) :
    (C.step s).iss.pc =
      if (C.step s).ex.pred && !(C.stepTrack s T).shEx then (C.step s).ex.predPc
      else C.seqPc (C.step s).ex.dec := by
  obtain ⟨hT, -, -⟩ := entering_ex hex
  rw [step_iss hiss, step_ex hex]
  show s.pc = if s.iss.pred && !T.shIss then s.iss.predPc else C.seqPc (C.issDec s)
  rw [issDec, h.lawful.seqPc_decode]
  exact h.inv.fetchBehind hT hK

theorem step_exFull (hex : (C.stepTrack s T).ex = true)
    (hK : (C.stepTrack s T).iEx < K) :
    (C.step s).ex.dec = C.seqDec (C.seqRun a₀ (C.stepTrack s T).iEx) := by
  obtain ⟨hT, -, hr⟩ := entering_ex hex
  rw [step_ex hex]
  exact h.issDec_eq hr hT hK

omit h in
theorem step_exJump (hex : (C.stepTrack s T).ex = true)
    (hj : C.jump (C.step s).ex.dec = true) : (C.stepTrack s T).iss = false := by
  obtain ⟨-, -, hr⟩ := entering_ex hex
  rw [step_ex hex] at hj
  have hj' : C.jump (C.issDec s) = true := hj
  simp [flushIss_eq hr, hj']

theorem step_midJump (hT : T.ex = true) (hK : T.iEx < K)
    (hj : C.jump (C.seqDec (C.seqRun a₀ T.iEx)) = true) :
    (C.stepTrack s T).ex = false := by
  rw [← h.inv.exFull hT hK] at hj
  simp [h.inv.exJump hT hK hj]

/-- A branch that casts a shadow is a tracked instruction. -/
theorem step_shIss (hsh : (C.stepTrack s T).shIss = true)
    (hK : (C.stepTrack s T).iEx ≤ K) :
    ∃ j < (C.stepTrack s T).iEx, C.branch (C.seqDec (C.seqRun a₀ j)) = true := by
  have hb : C.branch s.ex.dec = true := hsh
  simp only [stepTrack_iEx] at hK ⊢
  unfold Track.iIss at hK
  cases hex : T.ex with
  | false => simp [(h.inv.exEmpty hex (by omega)).1.branch] at hb
  | true =>
      have hlt : T.iEx < K := by simp [hex] at hK; omega
      refine ⟨T.iEx, by simp [Track.iIss, hex], ?_⟩
      rw [← h.inv.exFull hex hlt]
      exact hb

theorem step_shEx (hsh : (C.stepTrack s T).shEx = true)
    (hK : (C.stepTrack s T).iEx ≤ K) :
    ∃ j < (C.stepTrack s T).iEx, C.branch (C.seqDec (C.seqRun a₀ j)) = true := by
  have hle : T.iEx ≤ T.iIss := by unfold Track.iIss; omega
  simp only [stepTrack_iEx] at hK ⊢
  obtain ⟨j, hj, hb⟩ := h.inv.shIss hsh (by omega)
  exact ⟨j, by omega, hb⟩

end StepHyps

/-- One clock keeps the invariant. -/
theorem Inv.step (h : StepHyps C K a₀ T s) :
    C.Inv K a₀ (C.stepTrack s T) (C.step s) where
  regs := h.step_regs
  mem := h.step_mem
  wbFwd := by
    intro hf
    show (C.finish s.mid s.mem).wrEn = true
    have hf' : (C.finish s.mid s.mem).fwdEn = true := hf
    rw [h.lawful.finish_fwdEn] at hf'
    exact h.lawful.fwdEn_wrEn _ _ hf'
  wbFull := h.step_wb
  wbEmpty := fun hT hK => (h.inv.midEmpty hT hK).finish _
  midFull := fun hT hK => (h.execute hT hK).1
  midEmpty := fun hT hK => (h.inv.exEmpty hT hK).1.exec _ _
  exFull := h.step_exFull
  exRead1 := fun hex => by rw [step_ex hex]; rfl
  exRead2 := fun hex => by rw [step_ex hex]; rfl
  exEmpty := fun hex _ => h.step_exEmpty hex
  midJump := h.step_midJump
  exJump := fun hex _ hj => StepHyps.step_exJump hex hj
  issEmpty := fun hiss => by
    have hf : C.flushIss s = true := by simpa using hiss
    show (if C.flushIss s then C.issBubble else C.fetched s) = _
    simp [hf]
  issWord := fun hiss => by rw [step_iss hiss]; exact ⟨rfl, rfl⟩
  issAlone := h.step_issAlone
  issBehind := h.step_issBehind
  fetchNext := h.step_fetchNext
  fetchBehind := h.step_fetchBehind
  shIss := h.step_shIss
  shEx := h.step_shEx
  shadowWb := h.inv.shadowMid
  shadowMid := h.inv.shadowEx
  shadowEx := fun hex hK => by
    obtain ⟨hT, -, hr⟩ := entering_ex hex
    show s.shadow.iss = _
    rw [h.inv.shadowIss hT, (h.inv.issWord hT).1, h.iss_pc hr hT hK]
    rfl
  shadowIss := fun hiss => by rw [step_iss hiss]; rfl

end Core

end SimpleCpu.Pipeline
