import SimpleCpu.Rtl.FrontEnd

/-!
# What the predictor learns of a branch

An execution of a branch reads the prediction when the branch is fetched and feeds back
whether it was right when the branch is resolved; in between and afterwards other branches
may update other entries.

* `Entry.execute_not_taken`, `Entry.execute_taken`: what an execution does to the entry of
  the branch.
* `entry_of_executes`: it does so whatever happens elsewhere in the tables.
* `predicts_iff`: when two executions with one outcome teach the predictor that outcome.

A prediction "not taken" comes with the target 0, so it is fed back as right only if the
target of the branch is 0.
-/

namespace SimpleCpu.Rtl

/-! ## One entry -/

/-- Counter and target that an address selects. -/
structure Entry where
  count : BitVec 2
  target : BitVec 32

namespace Entry

variable (e : Entry)

/-- The prediction is "taken". -/
def taken : Bool := e.count.getLsbD 1

/-- The predicted target. -/
def predPc : BitVec 32 := if e.taken then e.target else 0

/-- `brn_corr_pred_ex_mem`, from the outcome, the target and the prediction carried along. -/
def corrPred (brnPred taken : Bool) (nextBrnPc nextPredPc : BitVec 32) : Bool :=
  (brnPred == taken) && (nextBrnPc == nextPredPc)

/-- The entry after an execution that was predicted from it. -/
def execute (taken : Bool) (target : BitVec 32) : Entry :=
  let corr := corrPred e.taken taken target e.predPc
  { count := twoBitSatCounter e.count corr
    target := if !corr then target else e.target }

/-- The entry predicts the outcome, and the target if it is taken. -/
structure Predicts (taken : Bool) (target : BitVec 32) : Prop where
  outcome : e.taken = taken
  target : taken = true → e.predPc = target

/-- The four counters. -/
theorem count_cases (c : BitVec 2) : c = 0 ∨ c = 1 ∨ c = 2 ∨ c = 3 := by
  revert c
  decide

variable {e} {target : BitVec 32}

/-- A branch that is not taken moves its counter towards "taken" if that is not the
prediction, and towards "not taken" if it is. -/
theorem execute_not_taken (ht : target ≠ 0) :
    (e.execute false target).count = if e.taken then e.count - 1 else e.count + 1 := by
  obtain ⟨c, tgt⟩ := e
  have hne : (target == 0#32) = false := beq_false_of_ne ht
  rcases count_cases c with rfl | rfl | rfl | rfl <;>
    simp [execute, corrPred, predPc, taken, twoBitSatCounter, hne]

/-- With the target 0 it moves its counter towards "not taken". -/
theorem execute_not_taken_zero :
    (e.execute false 0).count = if e.count = 0 then 0 else e.count - 1 := by
  obtain ⟨c, tgt⟩ := e
  rcases count_cases c with rfl | rfl | rfl | rfl <;>
    simp [execute, corrPred, predPc, taken, twoBitSatCounter]

/-- A branch that is taken leaves its target behind, and moves its counter towards "taken"
unless a wrong target was predicted. -/
theorem execute_taken (e : Entry) (target : BitVec 32) :
    (e.execute true target).target = target ∧
      (e.execute true target).count =
        if e.taken && e.target != target then e.count - 1
        else if e.count = 3 then 3 else e.count + 1 := by
  obtain ⟨c, tgt⟩ := e
  by_cases h : target = tgt
  · subst h
    rcases count_cases c with rfl | rfl | rfl | rfl <;>
      simp [execute, corrPred, predPc, taken, twoBitSatCounter]
  · have hne : (target == tgt) = false := beq_false_of_ne h
    have hne' : (tgt != target) = true := bne_iff_ne.mpr (Ne.symm h)
    rcases count_cases c with rfl | rfl | rfl | rfl <;>
      simp [execute, corrPred, predPc, taken, twoBitSatCounter, hne, hne']

/-- Two executions that were not taken: the counter comes back to where it was, or goes to
the other side. -/
theorem taken_of_not_taken_twice (ht : target ≠ 0) :
    ((e.execute false target).execute false target).taken = !e.count.getLsbD 0 := by
  have hcount : ∀ c : BitVec 2,
      (let c' := if c.getLsbD 1 then c - 1 else c + 1
       (if c'.getLsbD 1 then c' - 1 else c' + 1).getLsbD 1) = !c.getLsbD 0 := by decide
  have htwice := execute_not_taken (e := e.execute false target) ht
  unfold taken at htwice ⊢
  rw [htwice, execute_not_taken ht]
  exact hcount e.count

theorem taken_of_not_taken_twice_zero :
    ((e.execute false 0).execute false 0).taken = false := by
  have hcount : ∀ c : BitVec 2,
      (let c' := if c = 0 then 0 else c - 1
       (if c' = 0 then 0 else c' - 1).getLsbD 1) = false := by decide
  unfold taken
  rw [execute_not_taken_zero, execute_not_taken_zero]
  exact hcount e.count

/-- Two executions that were taken are always learned. -/
theorem predicts_of_taken_twice :
    ((e.execute true target).execute true target).Predicts true target := by
  have hcount : ∀ (c : BitVec 2) (wrong : Bool),
      (let c' := if c.getLsbD 1 && wrong then c - 1 else if c = 3 then 3 else c + 1
       (if c' = 3 then 3 else c' + 1).getLsbD 1) = true := by decide
  have hfirst := execute_taken e target
  obtain ⟨htarget, hcount'⟩ := execute_taken (e.execute true target) target
  have htaken : ((e.execute true target).execute true target).taken = true := by
    unfold taken at hcount' ⊢
    rw [hcount', hfirst.1, bne_self_eq_false, Bool.and_false, if_neg Bool.false_ne_true, hfirst.2]
    exact hcount e.count _
  refine ⟨htaken, fun _ => ?_⟩
  unfold predPc
  rw [htaken, if_pos rfl, htarget]

/-- When two executions with one outcome teach the entry that outcome: always if they are
taken, and if they are not only from an odd counter or with the target 0. -/
theorem predicts_twice_iff (taken : Bool) :
    ((e.execute taken target).execute taken target).Predicts taken target ↔
      taken = true ∨ target = 0 ∨ e.count.getLsbD 0 = true := by
  cases taken with
  | true => exact ⟨fun _ => Or.inl rfl, fun _ => predicts_of_taken_twice⟩
  | false =>
      have houtcome : ((e.execute false target).execute false target).Predicts false target ↔
          ((e.execute false target).execute false target).taken = false :=
        ⟨fun h => h.outcome, fun h => ⟨h, fun hf => absurd hf Bool.false_ne_true⟩⟩
      rw [houtcome]
      by_cases ht : target = 0
      · subst ht
        exact ⟨fun _ => Or.inr (Or.inl rfl), fun _ => taken_of_not_taken_twice_zero⟩
      · rw [taken_of_not_taken_twice ht, Bool.not_eq_false']
        constructor
        · exact fun hodd => Or.inr (Or.inr hodd)
        · rintro (hf | hz | hodd)
          · exact absurd hf Bool.false_ne_true
          · exact absurd hz ht
          · exact hodd

end Entry

/-! ## The tables -/

/-- The entry of an address. -/
def Bpred.entry (b : Bpred) (addr : BitVec 32) : Entry where
  count := b.bpred (addr.extractLsb' 0 10)
  target := b.btb (addr.extractLsb' 0 10)

/-- The inputs of the feedback port in one clock. -/
structure Feedback where
  brn : Bool
  addr : BitVec 32
  fdback : Bool
  btbAddr : BitVec 32

def Bpred.update (b : Bpred) (f : Feedback) : Bpred := b.feedback f.brn f.addr f.fdback f.btbAddr

/-- No branch updates the entry of `pc`. -/
def Feedback.Spares (f : Feedback) (pc : BitVec 32) : Prop :=
  f.brn = true → f.addr.extractLsb' 0 10 ≠ pc.extractLsb' 0 10

/-- The tables `b'` come from `b` by an execution of the branch at `pc`: it is fetched,
other entries are updated, it is resolved, and other entries are updated. -/
structure Executes (pc : BitVec 32) (taken : Bool) (target : BitVec 32) (b b' : Bpred) :
    Prop where
  exists_feedbacks : ∃ inFlight after : List Feedback,
    (∀ f ∈ inFlight, f.Spares pc) ∧ (∀ f ∈ after, f.Spares pc) ∧
      b' = after.foldl Bpred.update ((inFlight.foldl Bpred.update b).feedback true pc
        (Entry.corrPred (b.takeness pc) taken target (b.targetAddr pc)) target)

section Tables

variable {b b' : Bpred} {pc target : BitVec 32} {taken : Bool}

theorem takeness_eq (b : Bpred) (addr : BitVec 32) : b.takeness addr = (b.entry addr).taken := by
  unfold Bpred.takeness Entry.taken Bpred.entry
  rw [BitVec.getLsbD_eq_getElem (by decide)]

theorem targetAddr_eq (b : Bpred) (addr : BitVec 32) :
    b.targetAddr addr = (b.entry addr).predPc := by
  unfold Bpred.targetAddr Entry.predPc
  rw [takeness_eq]
  rfl

/-- The feedback of the branch itself. -/
theorem entry_feedback (b : Bpred) (fdback : Bool) :
    (b.feedback true pc fdback target).entry pc =
      { count := twoBitSatCounter (b.entry pc).count fdback
        target := if !fdback then target else (b.entry pc).target } := by
  unfold Bpred.feedback Bpred.entry
  cases fdback <;> simp

/-- An update elsewhere. -/
theorem entry_update {f : Feedback} (h : f.Spares pc) : (b.update f).entry pc = b.entry pc := by
  unfold Bpred.update Bpred.feedback Bpred.entry
  cases hb : f.brn with
  | false => rfl
  | true =>
      have hne := Ne.symm (h hb)
      cases f.fdback <;> simp [Function.update_of_ne hne]

theorem entry_foldl_update {l : List Feedback} (h : ∀ f ∈ l, f.Spares pc) (b : Bpred) :
    (l.foldl Bpred.update b).entry pc = b.entry pc := by
  induction l generalizing b with
  | nil => rfl
  | cons f l ih =>
      obtain ⟨hf, hl⟩ := List.forall_mem_cons.mp h
      exact (ih hl (b.update f)).trans (entry_update hf)

/-- An execution of the branch acts on its entry alone. -/
theorem entry_of_executes (h : Executes pc taken target b b') :
    b'.entry pc = (b.entry pc).execute taken target := by
  obtain ⟨inFlight, after, hin, hafter, rfl⟩ := h.exists_feedbacks
  rw [entry_foldl_update hafter, entry_feedback, entry_foldl_update hin, takeness_eq,
    targetAddr_eq]
  rfl

/-- When two executions with one outcome teach the predictor that outcome. -/
theorem predicts_iff {b₁ b₂ : Bpred} (h₁ : Executes pc taken target b b₁)
    (h₂ : Executes pc taken target b₁ b₂) :
    (b₂.entry pc).Predicts taken target ↔
      taken = true ∨ target = 0 ∨ (b.entry pc).count.getLsbD 0 = true := by
  rw [entry_of_executes h₂, entry_of_executes h₁]
  exact Entry.predicts_twice_iff taken

/-- From a counter at zero, a branch that is never taken is never predicted taken exactly
if its target is 0. -/
theorem never_predicted_taken_iff {tables : Nat → Bpred}
    (hzero : ((tables 0).entry pc).count = 0)
    (hstep : ∀ n, Executes pc false target (tables n) (tables (n + 1))) :
    (∀ n, (tables n).takeness pc = false) ↔ target = 0 := by
  constructor
  · intro h
    by_contra ht
    have htwice := Entry.taken_of_not_taken_twice (e := (tables 0).entry pc) ht
    rw [← entry_of_executes (hstep 0), ← entry_of_executes (hstep 1), ← takeness_eq, h 2,
      hzero] at htwice
    exact absurd htwice (by decide)
  · rintro rfl n
    have hcount : ((tables n).entry pc).count = 0 := by
      induction n with
      | zero => exact hzero
      | succ n ih => rw [entry_of_executes (hstep n), Entry.execute_not_taken_zero, if_pos ih]
    rw [takeness_eq]
    unfold Entry.taken
    rw [hcount]
    rfl

end Tables

end SimpleCpu.Rtl
