import SimpleCpu.Pipeline.Refinement

/-!
# Conditions on the program alone

`RunHyps` asks every cycle to be clean, and which cycles there are depends on the
predictor.  `Static` asks the sequential run instead: what an instruction reads is brought
up to date by the forwarding paths, seen from the two instructions in front of it, and no
branch is taken two instructions behind another one.

* `Inv.noHazard1`, `Inv.noHazard2`: operands are brought up to date in every cycle, however
  the instructions are spread over the stages.
* `shadow_distance`: a prediction that was recorded in the shadow of a branch belongs to
  the second instruction behind it.
* `Static.runHyps`: together, whatever the predictor holds.
* `RunHyps.retired`: what is retired, by the number of retirements before it.
-/

namespace SimpleCpu.Pipeline

variable {W R D M Mem P : Type} [DecidableEq R]

namespace Core

variable (C : Core W R D M Mem P) (a₀ : Arch W R Mem)

/-! ## The conditions -/

/-- The `j`-th instruction finds `r` up to date at a port that takes `fwdVal` from the
memory stage: an instruction right in front that writes `r` forwards it, and one in front
of that does so unless it is overwritten.  A jump is never followed directly, so what it
would forward does not matter. -/
structure Served (fwdVal : M → Mem → W) (j : Nat) (r : R) : Prop where
  first : ∀ i, i + 1 = j → (C.seqWb (C.seqRun a₀ i)).wrEn = true →
    (C.seqWb (C.seqRun a₀ i)).rd = r →
    C.fwdEn (C.seqMid (C.seqRun a₀ i)) = true ∧
      (C.jump (C.seqDec (C.seqRun a₀ i)) = false →
        fwdVal (C.seqMid (C.seqRun a₀ i)) (C.seqRun a₀ i).mem = (C.seqWb (C.seqRun a₀ i)).data)
  second : ∀ i, i + 2 = j → (C.seqWb (C.seqRun a₀ i)).wrEn = true →
    (C.seqWb (C.seqRun a₀ i)).rd = r →
    C.fwdEn (C.seqMid (C.seqRun a₀ i)) = true ∨
      (C.seqWb (C.seqRun a₀ (i + 1))).wrEn = true ∧ (C.seqWb (C.seqRun a₀ (i + 1))).rd = r

/-- The first `K` instructions of the sequential run suit the pipeline. -/
structure Static (K : Nat) : Prop where
  regular : ∀ i < K, C.Regular (C.seqDec (C.seqRun a₀ i))
  port1 : ∀ j < K, C.Ignores1 (C.seqDec (C.seqRun a₀ j)) ∨
    (C.rs1 (C.seqDec (C.seqRun a₀ j)) ≠ C.zeroReg →
      C.Served a₀ C.fwdVal1 j (C.rs1 (C.seqDec (C.seqRun a₀ j))))
  port2 : ∀ j < K, C.Ignores2 (C.seqDec (C.seqRun a₀ j)) ∨
    (C.rs2 (C.seqDec (C.seqRun a₀ j)) ≠ C.zeroReg →
      C.Served a₀ (fun m _ => C.fwdVal2 m) j (C.rs2 (C.seqDec (C.seqRun a₀ j))))
  shadow : ∀ i, i + 2 < K → C.branch (C.seqDec (C.seqRun a₀ i)) = true →
    C.seqTaken (C.seqRun a₀ (i + 2)) = true →
    C.brnTarget (C.seqDec (C.seqRun a₀ (i + 2))) = C.seqPc (C.seqDec (C.seqRun a₀ (i + 2)))

variable {C a₀} {K : Nat} {T : Track} {s : State W R D M Mem P}

/-! ## Operands -/

section Operands

variable {fwdVal : M → Mem → W} {r : R}

/-- The instruction that forwards from the memory stage is the one right in front. -/
theorem Inv.mid_first (h : C.Inv K a₀ T s) (hK : T.iEx < K) (hf : C.fwdMid s r = true) :
    T.mid = true ∧ T.iMid + 1 = T.iEx ∧ T.iMid < K ∧
      s.mid = C.seqMid (C.seqRun a₀ T.iMid) ∧ s.mem = (C.seqRun a₀ T.iMid).mem := by
  have hmidK : T.iMid ≤ K := by unfold Track.iEx at hK; omega
  have hT := h.mid_of_fwdMid hmidK hf
  have hi : T.iMid + 1 = T.iEx := by simp [Track.iEx, hT]
  exact ⟨hT, hi, by omega, h.midFull hT (by omega), h.mem hmidK⟩

/-- Whatever is about to write `r` is forwarded. -/
theorem Inv.bypassed_of_served (h : C.Inv K a₀ T s) (hC : C.Lawful) (hK : T.iEx < K)
    (hr : r ≠ C.zeroReg) (hserved : C.Served a₀ fwdVal T.iEx r) : C.Bypassed s r := by
  have hmidK : T.iMid ≤ K := by unfold Track.iEx at hK; omega
  have hnK : T.n ≤ K := by unfold Track.iMid at hmidK; omega
  refine fun _ => ⟨fun hw hrd => ?_, fun hno hw hrd => ?_⟩
  · cases hT : T.mid with
    | false =>
        have hzero := (((h.midEmpty hT hmidK).finish s.mem).wrEn hw).1
        rw [hC.finish_rd, hrd] at hzero
        exact absurd hzero hr
    | true =>
        have hi : T.iMid + 1 = T.iEx := by simp [Track.iEx, hT]
        have hmid := h.midFull hT (by omega)
        rw [hmid, h.mem hmidK] at hw
        rw [hmid] at hrd ⊢
        exact (hserved.first _ hi hw ((hC.finish_rd _ _).trans hrd)).1
  · cases hwbT : T.wb with
    | false =>
        have hzero := ((h.wbEmpty hwbT hnK).wrEn hw).1
        rw [hrd] at hzero
        exact absurd hzero hr
    | true =>
        have hn : T.n + 1 = T.iMid := by simp [Track.iMid, hwbT]
        have hwb := h.wbFull hwbT (by omega)
        rw [hwb] at hw hrd ⊢
        refine (hC.finish_fwdEn _ _).trans ?_
        cases hT : T.mid with
        | false =>
            -- a gap in between, and still the instruction right in front
            have hi : T.n + 1 = T.iEx := by simp [Track.iEx, hT, hn]
            exact (hserved.first _ hi hw hrd).1
        | true =>
            have hi : T.iMid + 1 = T.iEx := by simp [Track.iEx, hT]
            rcases hserved.second _ (show T.n + 2 = T.iEx by omega) hw hrd with hf | ⟨hw', hrd'⟩
            · exact hf
            · -- what the memory stage writes to `r` is forwarded from there
              rw [hn] at hw' hrd'
              have hf := (hserved.first _ hi hw' hrd').1
              have hmid := h.midFull hT (by omega)
              rw [← hmid] at hf
              have hrdm : C.rd s.mid = r := by
                rw [hmid, ← hC.finish_rd _ (C.seqRun a₀ T.iMid).mem]
                exact hrd'
              have hfwd : C.fwdMid s r = true := by
                rw [fwdMid, hf, hrdm, bne_iff_ne.mpr hr, beq_self_eq_true]
                rfl
              exact absurd (hno.symm.trans hfwd) Bool.false_ne_true

/-- And what is forwarded is what is about to be written. -/
theorem Inv.fwdVal_of_served (h : C.Inv K a₀ T s) (hC : C.Lawful) (hex : T.ex = true)
    (hK : T.iEx < K) (hserved : r ≠ C.zeroReg → C.Served a₀ fwdVal T.iEx r)
    (hf : C.fwdMid s r = true) : fwdVal s.mid s.mem = (C.finish s.mid s.mem).data := by
  obtain ⟨hT, hi, hlt, hmid, hmem⟩ := h.mid_first hK hf
  simp only [fwdMid, Bool.and_eq_true, bne_iff_ne, beq_iff_eq] at hf
  obtain ⟨⟨hfwd, hrd0⟩, hrd⟩ := hf
  rw [hmid] at hfwd hrd hrd0
  have hserved := hserved (by rw [← hrd]; exact hrd0)
  have hjump : C.jump (C.seqDec (C.seqRun a₀ T.iMid)) = false := by
    by_contra hj
    have hexF := h.midJump hT hlt (by simpa using hj)
    exact absurd (hexF.symm.trans hex) Bool.false_ne_true
  rw [hmid, hmem]
  exact (hserved.first _ hi (hC.fwdEn_wrEn _ _ hfwd) ((hC.finish_rd _ _).trans hrd)).2 hjump

/-- A register that always reads zero is served. -/
theorem bypassed_zeroReg : C.Bypassed s C.zeroReg := fun h => absurd rfl h

theorem Inv.bypassed_port (h : C.Inv K a₀ T s) (hC : C.Lawful) (hK : T.iEx < K)
    (hserved : r ≠ C.zeroReg → C.Served a₀ fwdVal T.iEx r) : C.Bypassed s r := by
  by_cases hr : r = C.zeroReg
  · rw [hr]
    exact bypassed_zeroReg
  · exact h.bypassed_of_served hC hK hr (hserved hr)

theorem Inv.noHazard1 (h : C.Inv K a₀ T s) (hC : C.Lawful) (hstatic : C.Static a₀ K)
    (hex : T.ex = true) (hK : T.iEx < K) : C.NoHazard1 s := by
  have hdec := h.exFull hex hK
  unfold NoHazard1
  rw [hdec]
  exact (hstatic.port1 _ hK).imp_right fun hserved =>
    ⟨h.bypassed_port hC hK hserved, h.fwdVal_of_served hC hex hK hserved⟩

theorem Inv.noHazard2 (h : C.Inv K a₀ T s) (hC : C.Lawful) (hstatic : C.Static a₀ K)
    (hex : T.ex = true) (hK : T.iEx < K) : C.NoHazard2 s := by
  have hdec := h.exFull hex hK
  unfold NoHazard2
  rw [hdec]
  exact (hstatic.port2 _ hK).imp_right fun hserved =>
    ⟨h.bypassed_port hC hK hserved, fun hf => h.fwdVal_of_served hC hex hK hserved hf⟩

end Operands

/-! ## Branches in the shadow of another -/

section Shadow

variable [DecidableEq W] {s₀ : State W R D M Mem P}

/-- Behind anything but a jump the issue stage is not empty. -/
theorem track_iss_of_ex (t : Nat) (hex : (C.track s₀ t).ex = true) :
    (C.track s₀ t).iss = !C.jump (C.run s₀ t).ex.dec := by
  cases t with
  | zero => exact absurd hex Bool.false_ne_true
  | succ t =>
      rw [track_succ] at hex ⊢
      obtain ⟨-, -, hr⟩ := entering_ex hex
      rw [run_succ, step_ex hex, stepTrack_iss, flushIss_eq hr]
      rfl

/-- A prediction that was recorded in the shadow of a branch belongs to the second
instruction behind it. -/
theorem shadow_distance {t : Nat} (hinv : C.Inv K a₀ (C.track s₀ t) (C.run s₀ t))
    (hregular : ∀ i < K, C.Regular (C.seqDec (C.seqRun a₀ i)))
    (hsh : (C.track s₀ (t + 2)).shEx = true) (hex : (C.track s₀ (t + 2)).ex = true)
    (hK : (C.track s₀ (t + 2)).iEx < K) :
    ∃ i, i + 2 = (C.track s₀ (t + 2)).iEx ∧ C.branch (C.seqDec (C.seqRun a₀ i)) = true := by
  rw [track_shEx] at hsh
  rw [track_succ, stepTrack_iEx] at hK ⊢
  -- the instruction has moved on through both clocks, so none has redirected fetch
  obtain ⟨hiss₁, -, -⟩ := entering_ex hex
  obtain ⟨hflush₀, hr₀, -⟩ := entering_iss hiss₁
  have hle : (C.track s₀ t).iEx ≤ (C.track s₀ (t + 1)).iIss := by
    rw [track_succ, stepTrack_iIss]
    unfold Track.iIss
    omega
  have hex₀ : (C.track s₀ t).ex = true := by
    by_contra hno
    have hinert := (hinv.exEmpty (by simpa using hno) (by omega)).1.branch
    exact absurd (hinert.symm.trans hsh) Bool.false_ne_true
  have hdec := hinv.exFull hex₀ (by omega)
  have hjump : C.jump (C.run s₀ t).ex.dec = false := by
    by_contra hj
    have hreg := hregular _ (show (C.track s₀ t).iEx < K by omega)
    rw [hdec] at hj hsh
    exact absurd ((hreg.jump_not_branch (by simpa using hj)).symm.trans hsh) Bool.false_ne_true
  have hiss₀ : (C.track s₀ t).iss = true := by
    rw [track_iss_of_ex t hex₀, hjump]
    rfl
  have hex₁ : (C.track s₀ (t + 1)).ex = true := by
    rw [track_succ, stepTrack_ex, hiss₀, flushEx_eq hr₀ hjump]
    rfl
  refine ⟨(C.track s₀ t).iEx, ?_, by rw [← hdec]; exact hsh⟩
  unfold Track.iIss
  rw [hex₁, track_succ, stepTrack_iEx]
  unfold Track.iIss
  rw [hex₀]
  rfl

/-- The conditions on the program make every cycle clean. -/
theorem Static.runHyps (h : C.Static a₀ K) (hC : C.Lawful)
    (hzero : a₀.regs C.zeroReg = C.zeroVal) (hreset : C.AtReset a₀ s₀) :
    RunHyps C K a₀ s₀ where
  lawful := hC
  regular := h.regular
  zeroReg := hzero
  reset := hreset
  clean t hupto := by
    have hinv := hupto t (Nat.le_refl t)
    refine ⟨hinv.noHazard1 hC h, hinv.noHazard2 hC h, fun hex hK hsh htaken _ => ?_⟩
    have hzeros := seqRun_zeroReg hC h.regular hzero
    rw [(hinv.execute_eq hC hzeros (hinv.noHazard1 hC h hex hK) (hinv.noHazard2 hC h hex hK)
      hex hK).2] at htaken
    rw [hinv.exFull hex hK]
    cases t with
    | zero => exact absurd hsh Bool.false_ne_true
    | succ t =>
        cases t with
        | zero => exact absurd hsh Bool.false_ne_true
        | succ t =>
            obtain ⟨i, hi, hb⟩ := shadow_distance (hupto t (by omega)) h.regular hsh hex hK
            rw [← hi] at hK htaken ⊢
            exact h.shadow i hK hb htaken

end Shadow

/-! ## What is retired, counted -/

section Count

variable [DecidableEq W] {s₀ : State W R D M Mem P}

/-- If all instructions are valid, as many have been written back as have been retired. -/
theorem RunHyps.track_n (h : RunHyps C K a₀ s₀)
    (hvalid : ∀ i < K, (C.seqWb (C.seqRun a₀ i)).valid = true) {t : Nat}
    (ht : Nat.count (fun u => (C.run s₀ u).wb.valid = true) t < K) :
    (C.track s₀ t).n = Nat.count (fun u => (C.run s₀ u).wb.valid = true) t := by
  induction t with
  | zero => rfl
  | succ t ih =>
      rw [Nat.count_succ] at ht ⊢
      have hn := ih (by omega)
      have hinv := h.inv t
      rw [track_succ, stepTrack_n, Track.iMid]
      cases hwb : (C.track s₀ t).wb with
      | true => rw [hinv.wbFull hwb (by omega), if_pos (hvalid _ (by omega)), hn]; rfl
      | false =>
          have hempty := (hinv.wbEmpty hwb (by omega)).valid
          rw [hempty, if_neg Bool.false_ne_true, hn]
          rfl

/-- What a valid write-back retires, by its number. -/
theorem RunHyps.retired (h : RunHyps C K a₀ s₀)
    (hvalid : ∀ i < K, (C.seqWb (C.seqRun a₀ i)).valid = true) {k t : Nat}
    (hcount : Nat.count (fun u => (C.run s₀ u).wb.valid = true) t = k) (hk : k < K)
    (hv : (C.run s₀ t).wb.valid = true) :
    (C.run s₀ t).wb = C.seqWb (C.seqRun a₀ k) ∧
      (C.run s₀ t).shadow.wb = ((C.seqRun a₀ k).pc, C.imem (C.seqRun a₀ k).pc) ∧
      (C.run s₀ t).regs = (C.seqRun a₀ k).regs ∧
      (C.run s₀ t).wb.apply (C.run s₀ t).regs = (C.seqRun a₀ (k + 1)).regs ∧
      (C.run s₀ t).mem = (C.seqRun a₀ (k + 1)).mem := by
  have hn : (C.track s₀ t).n = k := (h.track_n hvalid (by omega)).trans hcount
  have hinv := h.inv t
  have hwb : (C.track s₀ t).wb = true := by
    by_contra hwb
    have hempty := (hinv.wbEmpty (by simpa using hwb) (by omega)).valid
    exact absurd (hempty.symm.trans hv) Bool.false_ne_true
  have hmid : (C.track s₀ t).iMid = k + 1 := by
    rw [Track.iMid, hn, hwb]
    rfl
  obtain ⟨hw, hsh⟩ := h.retired_of_valid t (by omega) hv
  rw [hn] at hw hsh
  refine ⟨hw, hsh, ?_, ?_, ?_⟩
  · rw [hinv.regs (by omega), hn]
  · rw [hinv.regs_mid (h.stepHyps t).zeroReg (by omega), hmid]
  · rw [hinv.mem (by omega), hmid]

end Count

end Core

end SimpleCpu.Pipeline
