import Mathlib.Data.Nat.Count
import SimpleCpu.Pipeline.Preservation

/-!
# A pipeline refines the sequential machine

Started empty, a pipeline whose cycles are all clean writes back the instructions of
the sequential run, in order, each once (`retires`), and every valid write-back is
one of them (`retired_of_valid`).
-/

namespace SimpleCpu.Pipeline

variable {W R D M Mem P : Type} [DecidableEq R]

namespace Core

variable (C : Core W R D M Mem P)

/-- The pipeline is empty and fetch is at the first instruction of `a₀`. -/
structure AtReset (a₀ : Arch W R Mem) (s₀ : State W R D M Mem P) : Prop where
  pc : s₀.pc = a₀.pc
  regs : s₀.regs = a₀.regs
  mem : s₀.mem = a₀.mem
  iss : s₀.iss = C.issBubble
  exDec : C.InertDec s₀.ex.dec
  exPred : s₀.ex.pred = false
  mid : C.InertMid s₀.mid
  wb : C.InertWb s₀.wb
  wbFwd : s₀.wb.fwdEn = true → s₀.wb.wrEn = true

variable {C} {K : Nat} {a₀ : Arch W R Mem} {s₀ : State W R D M Mem P}

theorem AtReset.inv (h : C.AtReset a₀ s₀) : C.Inv K a₀ Track.empty s₀ where
  regs _ := h.regs
  mem _ := h.mem
  wbFwd := h.wbFwd
  wbFull hT := by simp [Track.empty] at hT
  wbEmpty _ _ := h.wb
  midFull hT := by simp [Track.empty] at hT
  midEmpty _ _ := h.mid
  exFull hT := by simp [Track.empty] at hT
  exRead1 hT := by simp [Track.empty] at hT
  exRead2 hT := by simp [Track.empty] at hT
  exEmpty _ _ := ⟨h.exDec, h.exPred⟩
  midJump hT := by simp [Track.empty] at hT
  exJump hT := by simp [Track.empty] at hT
  issEmpty _ := h.iss
  issWord hT := by simp [Track.empty] at hT
  issAlone _ hT := by simp [Track.empty] at hT
  issBehind hT := by simp [Track.empty] at hT
  fetchNext _ _ := h.pc
  fetchBehind hT := by simp [Track.empty] at hT
  shIss hT := by simp [Track.empty] at hT
  shEx hT := by simp [Track.empty] at hT
  shadowWb hT := by simp [Track.empty] at hT
  shadowMid hT := by simp [Track.empty] at hT
  shadowEx hT := by simp [Track.empty] at hT
  shadowIss hT := by simp [Track.empty] at hT

/-! ## Runs -/

variable [DecidableEq W]

@[simp] theorem run_zero : C.run s₀ 0 = s₀ := rfl

@[simp] theorem run_succ (t : Nat) : C.run s₀ (t + 1) = C.step (C.run s₀ t) := rfl

@[simp] theorem track_zero : C.track s₀ 0 = Track.empty := rfl

@[simp] theorem track_succ (t : Nat) :
    C.track s₀ (t + 1) = C.stepTrack (C.run s₀ t) (C.track s₀ t) := rfl

/-- A prediction is in the shadow of a branch when a branch was in the execute stage
while it was made. -/
theorem track_shEx (t : Nat) :
    (C.track s₀ (t + 2)).shEx = C.branch (C.run s₀ t).ex.dec := rfl

/-- The valid write-backs before a cycle are those of the instructions written back
before it. -/
theorem count_valid (t : Nat)
    (hinv : ∀ u ≤ t, C.Inv K a₀ (C.track s₀ u) (C.run s₀ u))
    (hn : (C.track s₀ t).n ≤ K) :
    Nat.count (fun u => (C.run s₀ u).wb.valid = true) t =
      Nat.count (fun i => (C.seqWb (C.seqRun a₀ i)).valid = true) (C.track s₀ t).n := by
  induction t with
  | zero => simp [Track.empty]
  | succ t ih =>
      have hlast := hinv t (by omega)
      rw [track_succ, stepTrack_n] at hn ⊢
      have hn' : (C.track s₀ t).n ≤ K := by unfold Track.iMid at hn; omega
      rw [Nat.count_succ, ih (fun u hu => hinv u (by omega)) hn']
      cases hwb : (C.track s₀ t).wb with
      | true =>
          have hlt : (C.track s₀ t).n < K := by simp [Track.iMid, hwb] at hn; omega
          simp [Track.iMid, hwb, Nat.count_succ, hlast.wbFull hwb hlt]
      | false =>
          simp [Track.iMid, hwb, (hlast.wbEmpty hwb hn').valid]

/-- What a whole run is assumed to satisfy: the first `K` instructions are regular,
and a cycle is clean when the invariant holds up to it. -/
structure RunHyps (C : Core W R D M Mem P) (K : Nat) (a₀ : Arch W R Mem)
    (s₀ : State W R D M Mem P) : Prop where
  lawful : C.Lawful
  regular : ∀ i < K, C.Regular (C.seqDec (C.seqRun a₀ i))
  zeroReg : a₀.regs C.zeroReg = C.zeroVal
  reset : C.AtReset a₀ s₀
  clean : ∀ t, (∀ u ≤ t, C.Inv K a₀ (C.track s₀ u) (C.run s₀ u)) →
    C.Clean (C.run s₀ t) K (C.track s₀ t)

namespace RunHyps

variable (h : RunHyps C K a₀ s₀)

include h

private theorem inv_upto (t : Nat) :
    ∀ u ≤ t, C.Inv K a₀ (C.track s₀ u) (C.run s₀ u) := by
  induction t with
  | zero =>
      intro u hu
      obtain rfl : u = 0 := by omega
      exact h.reset.inv
  | succ t ih =>
      intro u hu
      rcases Nat.lt_or_eq_of_le hu with hlt | rfl
      · exact ih u (by omega)
      · exact Inv.step
          { lawful := h.lawful
            regular := h.regular
            zeroReg := seqRun_zeroReg h.lawful h.regular h.zeroReg
            inv := ih t (Nat.le_refl t)
            clean := h.clean t ih }

/-- The invariant holds in every cycle. -/
theorem inv (t : Nat) : C.Inv K a₀ (C.track s₀ t) (C.run s₀ t) :=
  h.inv_upto t t (Nat.le_refl t)

theorem stepHyps (t : Nat) :
    StepHyps C K a₀ (C.track s₀ t) (C.run s₀ t) where
  lawful := h.lawful
  regular := h.regular
  zeroReg := seqRun_zeroReg h.lawful h.regular h.zeroReg
  inv := h.inv t
  clean := h.clean t (h.inv_upto t)

/-! ## Progress -/

/-- How many clocks the oldest instruction is away from the write-back stage. -/
private def lag (T : Track) : Nat :=
  if T.wb then 0 else if T.mid then 1 else if T.ex then 2 else if T.iss then 3 else 4

/-- Until something reaches the write-back stage, every clock brings the oldest
instruction one stage on. -/
private theorem lag_step (t : Nat) (hn : (C.track s₀ t).n < K)
    (hwb : (C.track s₀ t).wb = false) :
    (C.track s₀ (t + 1)).n = (C.track s₀ t).n ∧
      lag (C.track s₀ (t + 1)) < lag (C.track s₀ t) := by
  have hs := h.stepHyps t
  rw [track_succ]
  generalize C.track s₀ t = T at *
  generalize C.run s₀ t = s at *
  refine ⟨by simp [Track.iMid, hwb], ?_⟩
  have hmid : T.iMid = T.n := by simp [Track.iMid, hwb]
  cases hm : T.mid with
  | true => simp [lag, hwb, hm]
  | false =>
      have hex : T.iEx = T.n := by simp [Track.iEx, hm, hmid]
      cases he : T.ex with
      | true => simp [lag, hwb, hm, he]
      | false =>
          have hr : C.redirect s = false := hs.ex_empty he (by omega)
          have hiss : T.iIss = T.n := by simp [Track.iIss, he, hex]
          cases hi : T.iss with
          | true =>
              have hf := hs.flushEx_false hr hi (by omega)
              simp [lag, hwb, hm, he, hi, hf]
          | false =>
              have hb : C.flushIss s = false := by
                rw [flushIss_eq hr, issDec, hs.inv.issEmpty hi]
                exact hs.lawful.issBubble_inert.jump
              simp [lag, hwb, hm, he, hi, hb]

private theorem exists_wb_aux :
    ∀ (l t : Nat), lag (C.track s₀ t) ≤ l → (C.track s₀ t).n < K →
      ∃ t', (C.track s₀ t').n = (C.track s₀ t).n ∧ (C.track s₀ t').wb = true := by
  intro l
  induction l with
  | zero =>
      intro t hl _
      refine ⟨t, rfl, ?_⟩
      by_contra hwb
      unfold lag at hl
      grind
  | succ l ih =>
      intro t hl hn
      cases hwb : (C.track s₀ t).wb with
      | true => exact ⟨t, rfl, hwb⟩
      | false =>
          obtain ⟨hn', hlag⟩ := h.lag_step t hn hwb
          obtain ⟨t', ht', hwb'⟩ := ih (t + 1) (by omega) (by omega)
          exact ⟨t', by omega, hwb'⟩

/-- Every instruction reaches the write-back stage. -/
theorem exists_wb (i : Nat) (hi : i < K) :
    ∃ t, (C.track s₀ t).n = i ∧ (C.track s₀ t).wb = true := by
  induction i with
  | zero => exact h.exists_wb_aux _ 0 (Nat.le_refl _) hi
  | succ i ih =>
      obtain ⟨t, hn, hwb⟩ := ih (by omega)
      have hn' : (C.track s₀ (t + 1)).n = i + 1 := by
        simp [Track.iMid, hn, hwb]
      obtain ⟨t', ht', hwb'⟩ := h.exists_wb_aux _ (t + 1) (Nat.le_refl _) (by omega)
      exact ⟨t', by omega, hwb'⟩

/-! ## What is retired -/

/-- Every instruction passes through the execute stage. -/
theorem exists_ex (i : Nat) (hi : i < K) :
    ∃ t, (C.track s₀ t).ex = true ∧ (C.track s₀ t).iEx = i := by
  obtain ⟨t, hn, hwb⟩ := h.exists_wb i hi
  cases t with
  | zero => simp [Track.empty] at hwb
  | succ t =>
      cases t with
      | zero => simp [Track.empty] at hwb
      | succ t => exact ⟨t, by simpa using hwb, by simpa using hn⟩

/-- The `i`-th instruction of the sequential run is written back two clocks after it
was executed, and after exactly the valid ones among the instructions before it, with
the registers and the memory as it leaves them. -/
theorem retires (i : Nat) (hi : i < K) :
    ∃ t, (C.track s₀ t).ex = true ∧ (C.track s₀ t).iEx = i ∧
      (C.run s₀ (t + 2)).wb = C.seqWb (C.seqRun a₀ i) ∧
      (C.run s₀ (t + 2)).shadow.wb =
        ((C.seqRun a₀ i).pc, C.imem (C.seqRun a₀ i).pc) ∧
      (C.run s₀ (t + 2)).wb.apply (C.run s₀ (t + 2)).regs =
        (C.seqRun a₀ (i + 1)).regs ∧
      (C.run s₀ (t + 2)).mem = (C.seqRun a₀ (i + 1)).mem ∧
      Nat.count (fun u => (C.run s₀ u).wb.valid = true) (t + 2) =
        Nat.count (fun j => (C.seqWb (C.seqRun a₀ j)).valid = true) i := by
  obtain ⟨t, hex, hiEx⟩ := h.exists_ex i hi
  have hn : (C.track s₀ (t + 2)).n = i := hiEx
  have hwb : (C.track s₀ (t + 2)).wb = true := hex
  have hinv := h.inv (t + 2)
  have hmid : (C.track s₀ (t + 2)).iMid = i + 1 := by unfold Track.iMid; rw [hn, hwb]; rfl
  refine ⟨t, hex, hiEx, ?_, ?_, ?_, ?_, ?_⟩
  · rw [hinv.wbFull hwb (by omega), hn]
  · rw [hinv.shadowWb hwb (by omega), hn]
  · rw [hinv.regs_mid (h.stepHyps (t + 2)).zeroReg (by omega), hmid]
  · rw [hinv.mem (by omega), hmid]
  · rw [count_valid (t + 2) (fun u _ => h.inv u) (by omega), hn]

/-- A valid write-back is that of an instruction of the sequential run. -/
theorem retired_of_valid (t : Nat) (hn : (C.track s₀ t).n < K)
    (hv : (C.run s₀ t).wb.valid = true) :
    (C.run s₀ t).wb = C.seqWb (C.seqRun a₀ (C.track s₀ t).n) ∧
      (C.run s₀ t).shadow.wb =
        ((C.seqRun a₀ (C.track s₀ t).n).pc, C.imem (C.seqRun a₀ (C.track s₀ t).n).pc) := by
  have hinv := h.inv t
  have hwb : (C.track s₀ t).wb = true := by
    by_contra hwb
    have := (hinv.wbEmpty (by simpa using hwb) (by omega)).valid
    simp [hv] at this
  exact ⟨hinv.wbFull hwb hn, hinv.shadowWb hwb hn⟩

end RunHyps

end Core

end SimpleCpu.Pipeline
