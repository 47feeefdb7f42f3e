import Mathlib
import SimpleCpu.HexGen.Slots

/-!
# Rounds of a loop, and the words they write

What the main loops of the generators have in common.

* A loop repeats a round that may fail as long as there is more to do.  `IsLoop.rounds` says
  what has happened when it returns, and `Rounds.invariant` is its invariant rule.
* `countWords` counts the words of a table that are written to a file, and `formats_place` is
  one word more of a format.
* Each round makes a word of a format that is left, and words of one format may come on top.
  `Quota.step` is one word, and `Quota.full` is what has been written when none is left.
-/

namespace SimpleCpu.HexGen

/-! ## Rounds -/

section Rounds

variable {σ ε α : Type} {more : σ → Prop} {round : σ → Except ε σ} {s s' : σ}

/-- The states in front of the rounds, and behind them. -/
inductive Rounds (more : σ → Prop) (round : σ → Except ε σ) (s : σ) : σ → Prop where
  | refl : Rounds more round s s
  | round {s₁ s₂ : σ} : Rounds more round s s₁ → more s₁ → round s₁ = .ok s₂ →
      Rounds more round s s₂

/-- What every round keeps holds at the end. -/
theorem Rounds.invariant {P : σ → Prop} (hP : P s)
    (hround : ∀ s₁ s₂, Rounds more round s s₁ → more s₁ → P s₁ → round s₁ = .ok s₂ → P s₂)
    (h : Rounds more round s s') : P s' := by
  induction h with
  | refl => exact hP
  | round hs hmore hok ih => exact hround _ _ hs hmore ih hok

/-- The first round. -/
theorem Rounds.head (h : Rounds more round s s') :
    s' = s ∨ more s ∧ ∃ s₁, round s = .ok s₁ ∧ Rounds more round s₁ s' := by
  induction h with
  | refl => exact Or.inl rfl
  | round _ hmore hok ih =>
      rcases ih with rfl | ⟨hfirst, s₁, hs₁, hrest⟩
      · exact Or.inr ⟨hmore, _, hok, .refl⟩
      · exact Or.inr ⟨hfirst, s₁, hs₁, hrest.round hmore hok⟩

/-- `loop n` goes through at most `n` rounds, and returns `out` of the last state. -/
structure IsLoop (more : σ → Prop) (round : σ → Except ε σ) (out : σ → α)
    (loop : Nat → σ → Except ε α) : Prop where
  done : ∀ n s, ¬ more s → loop n s = .ok (out s)
  zero : ∀ s a, more s → loop 0 s ≠ .ok a
  succ : ∀ n s, more s → loop (n + 1) s = round s >>= loop n

/-- A loop written with the test first. -/
theorem IsLoop.of_ite [DecidablePred more] {out : σ → α} {loop : Nat → σ → Except ε α} {e : ε}
    (hzero : ∀ s, loop 0 s = if more s then .error e else .ok (out s))
    (hsucc : ∀ n s, loop (n + 1) s = if more s then round s >>= loop n else .ok (out s)) :
    IsLoop more round out loop where
  done n s hdone := by
    cases n with
    | zero => rw [hzero, if_neg hdone]
    | succ n => rw [hsucc, if_neg hdone]
  zero s a hmore := by
    rw [hzero, if_pos hmore]
    exact nofun
  succ n s hmore := by rw [hsucc, if_pos hmore]

/-- A loop that returns has gone through rounds until there was no more to do. -/
theorem IsLoop.rounds {out : σ → α} {loop : Nat → σ → Except ε α} {n : Nat} {a : α}
    (hl : IsLoop more round out loop) (hs : Rounds more round s s') (h : loop n s' = .ok a) :
    ∃ s', Rounds more round s s' ∧ ¬ more s' ∧ out s' = a := by
  by_cases hmore : more s'
  · induction n generalizing s' with
    | zero => exact absurd h (hl.zero s' a hmore)
    | succ n ih =>
        rw [hl.succ n s' hmore] at h
        obtain ⟨s₁, hround, h⟩ := bind_ok h
        have hs₁ := hs.round hmore hround
        by_cases hmore₁ : more s₁
        · exact ih hs₁ h hmore₁
        · rw [hl.done n s₁ hmore₁] at h
          exact ⟨s₁, hs₁, hmore₁, Except.ok.inj h⟩
  · rw [hl.done n s' hmore] at h
    exact ⟨s', hs, hmore, Except.ok.inj h⟩

/-- All states of a loop that is over after less than `n` rounds satisfy `check`. -/
def checkRounds (more : σ → Prop) [DecidablePred more] (round : σ → Except ε σ)
    (check : σ → Bool) : Nat → σ → Bool
  | 0, _ => false
  | n + 1, s =>
      check s && (!decide (more s) || (round s).toOption.all (checkRounds more round check n))

theorem of_checkRounds [DecidablePred more] {check : σ → Bool} {n : Nat}
    (h : checkRounds more round check n s = true) (hs : Rounds more round s s') :
    check s' = true := by
  induction n generalizing s with
  | zero => exact absurd h Bool.false_ne_true
  | succ n ih =>
      rw [checkRounds, Bool.and_eq_true] at h
      obtain ⟨hcheck, hnext⟩ := h
      rcases hs.head with rfl | ⟨hmore, s₁, hs₁, hrest⟩
      · exact hcheck
      · rw [decide_eq_true hmore, hs₁] at hnext
        exact ih hnext hrest

end Rounds

/-! ## Words of a file -/

/-- What is counted with one that was not. -/
theorem countP_update {α : Type} [DecidableEq α] {l : List α} {p : α → Bool} {a : α} {b : Bool}
    (hnodup : l.Nodup) (ha : a ∈ l) (hp : p a = false) :
    l.countP (Function.update p a b) = l.countP p + if b then 1 else 0 := by
  induction l with
  | nil => exact absurd ha List.not_mem_nil
  | cons c l ih =>
      obtain ⟨hc, hnodup⟩ := List.nodup_cons.mp hnodup
      rw [List.countP_cons, List.countP_cons]
      rcases List.mem_cons.mp ha with rfl | hmem
      · have hrest : l.countP (Function.update p a b) = l.countP p := by
          refine List.countP_congr fun d hd => ?_
          rw [Function.update_of_ne]
          rintro rfl
          exact hc hd
        rw [hrest, Function.update_self, hp]
        rfl
      · have hne : c ≠ a := by
          rintro rfl
          exact hc hmem
        rw [ih hnodup hmem, Function.update_of_ne hne]
        omega

/-- The indices that `print_to_file` looks at. -/
def fileIndices : List (BitVec 32) := (List.range 2048).map fun k => BitVec.ofNat 32 (4 * k)

theorem fileIndices_nodup : fileIndices.Nodup := by
  refine List.Nodup.map_on (fun k hk l hl h => ?_) List.nodup_range
  rw [List.mem_range] at hk hl
  have hnat := congrArg BitVec.toNat h
  rw [BitVec.toNat_ofNat, BitVec.toNat_ofNat] at hnat
  omega

theorem mem_fileIndices {i : BitVec 32} (hi : i.toNat < 0x2000) (h4 : i.toNat % 4 = 0) :
    i ∈ fileIndices := by
  refine List.mem_map.mpr ⟨i.toNat / 4, List.mem_range.mpr (by omega), ?_⟩
  apply BitVec.eq_of_toNat_eq
  rw [BitVec.toNat_ofNat]
  omega

theorem filterMap_ite {α β : Type} (p : α → Bool) (f : α → β) (l : List α) :
    (l.filterMap fun a => if p a then some (f a) else none) = (l.filter p).map f := by
  induction l with
  | nil => rfl
  | cons a l ih =>
      rw [List.filterMap_cons, List.filter_cons, ih]
      cases p a <;> rfl

/-- What is written for the indices that satisfy `p`. -/
theorem filterMap_fileIndices {α : Type} (p : BitVec 32 → Bool) (f : BitVec 32 → α) :
    ((List.range 2048).filterMap fun k =>
      if p (BitVec.ofNat 32 (4 * k)) then some (f (BitVec.ofNat 32 (4 * k))) else none) =
      (fileIndices.filter p).map f := by
  rw [← filterMap_ite, fileIndices, List.filterMap_map]
  rfl

/-- How many of the words that are written satisfy `f`. -/
def countWords (pc : Slots) (instr : BitVec 32 → BitVec 32) (f : BitVec 32 → Bool) : Nat :=
  fileIndices.countP fun i => pc i && f (instr i)

section CountWords

variable {pc : Slots} {instr : BitVec 32 → BitVec 32} {f : BitVec 32 → Bool}

theorem countWords_eq {w : Nat} (addr : BitVec 32 → BitVec w) :
    (((fileIndices.filter pc).map fun i => (addr i, instr i)).map Prod.snd).countP f =
      countWords pc instr f := by
  rw [List.map_map, List.countP_map, List.countP_filter]
  refine List.countP_congr fun i _ => ?_
  rw [Bool.and_comm]
  exact Iff.rfl

theorem countWords_empty (h : ∀ i, pc i = false) : countWords pc instr f = 0 := by
  refine List.countP_eq_zero.mpr fun i _ => ?_
  rw [h i, Bool.false_and]
  exact Bool.false_ne_true

/-- A word at a free slot. -/
theorem countWords_place {slot : BitVec 32} (hmem : slot ∈ fileIndices) (hfree : pc slot = false)
    (w : BitVec 32) :
    countWords (Function.update pc slot true) (Function.update instr slot w) f =
      countWords pc instr f + if f w then 1 else 0 := by
  have hcounted : (fun i => Function.update pc slot true i && f (Function.update instr slot w i)) =
      Function.update (fun i => pc i && f (instr i)) slot (f w) := by
    funext i
    by_cases hi : i = slot
    · subst hi
      rw [Function.update_self, Function.update_self, Function.update_self, Bool.true_and]
    · rw [Function.update_of_ne hi, Function.update_of_ne hi, Function.update_of_ne hi]
  unfold countWords
  rw [hcounted]
  refine countP_update fileIndices_nodup hmem ?_
  rw [hfree, Bool.false_and]

end CountWords

/-! ## Words of a format -/

section Formats

variable {φ : Type} {is : φ → BitVec 32 → Bool} {pc : Slots}
  {instr : BitVec 32 → BitVec 32} {slot w : BitVec 32} {t : φ}

/-- How many of the words that are written have each format. -/
def formats (is : φ → BitVec 32 → Bool) (pc : Slots) (instr : BitVec 32 → BitVec 32) : φ → Nat :=
  fun t => countWords pc instr (is t)

theorem formats_empty (h : ∀ i, pc i = false) : formats is pc instr = 0 :=
  funext fun _ => countWords_empty h

/-- A word of the format `t` at a free slot. -/
theorem formats_place [DecidableEq φ] (hmem : slot ∈ fileIndices) (hfree : pc slot = false)
    (hw : ∀ t', is t' w = decide (t' = t)) :
    formats is (Function.update pc slot true) (Function.update instr slot w) =
      formats is pc instr + Pi.single t 1 := by
  funext t'
  unfold formats
  rw [countWords_place hmem hfree, hw, Pi.add_apply, Pi.single_apply]
  simp only [decide_eq_true_eq]

end Formats

/-! ## Numbers to make -/

section Quota

variable {φ : Type} {j t : φ} {a b c m n made written written' : φ → Nat}
  {num : φ → Int}

theorem update_succ [DecidableEq φ] (f : φ → Nat) (t : φ) :
    Function.update f t (f t + 1) = f + Pi.single t 1 := by
  funext t'
  rw [Pi.add_apply, Pi.single_apply]
  by_cases ht : t' = t
  · subst ht
    rw [Function.update_self, if_pos rfl]
  · rw [Function.update_of_ne ht, if_neg ht, Nat.add_zero]

/-- From `a` to `b` there are `more` more of each format, and of the format `j` there may be
others on top. -/
structure Grown (j : φ) (a b more : φ → Nat) : Prop where
  same : ∀ t, t ≠ j → b t = a t + more t
  spare : a j + more j ≤ b j

theorem Grown.of_eq (h : b = a + m) : Grown j a b m where
  same t _ := congrFun h t
  spare := (congrFun h j).ge

/-- What is on top does not count. -/
theorem Grown.of_spare [DecidableEq φ] {k : Nat} (h : b = a + Pi.single j k) : Grown j a b 0 where
  same t ht := by rw [h, Pi.add_apply, Pi.single_eq_of_ne ht, Pi.zero_apply]
  spare := by
    rw [h, Pi.add_apply, Pi.zero_apply]
    exact Nat.le_add_right _ _

theorem Grown.refl : Grown j a a 0 := .of_eq (add_zero a).symm

theorem Grown.trans (h : Grown j a b m) (h' : Grown j b c n) : Grown j a c (m + n) where
  same t ht := by rw [h'.same t ht, h.same t ht, Pi.add_apply, Nat.add_assoc]
  spare := by
    have hb := h.spare
    have hc := h'.spare
    rw [Pi.add_apply]
    omega

/-- No more than `num` have been made, and what has been made has been written. -/
structure Quota (j : φ) (num : φ → Int) (made written : φ → Nat) : Prop where
  made_le : ∀ t, (made t : Int) ≤ num t
  grown : Grown j 0 written made

theorem Quota.zero (hnum : ∀ t, 0 ≤ num t) : Quota j num 0 0 where
  made_le := hnum
  grown := .refl

/-- One more is made of a format of which some are left. -/
theorem Quota.step [DecidableEq φ] (h : Quota j num made written) (hlt : (made t : Int) < num t)
    (hg : Grown j written written' (Pi.single t 1)) :
    Quota j num (made + Pi.single t 1) written' where
  made_le t' := by
    have hle := h.made_le t'
    rw [Pi.add_apply, Pi.single_apply]
    split
    next heq =>
      subst heq
      omega
    next => exact hle
  grown := h.grown.trans hg

/-- When as many have been made as there were to make, this holds for each format. -/
theorem Quota.made_eq (h : Quota j num made written) {l : List φ} (hl : ∀ t, t ∈ l)
    (hsum : (l.map num).sum ≤ (l.map fun t => (made t : Int)).sum) (t : φ) :
    (made t : Int) = num t := by
  by_contra hne
  have hlt := lt_of_le_of_ne (h.made_le t) hne
  have hless := List.sum_lt_sum (fun t => (made t : Int)) num (fun t _ => h.made_le t)
    ⟨t, hl t, hlt⟩
  exact absurd hsum (not_le.mpr hless)

/-- So it has been written, with what comes on top. -/
theorem Quota.full (h : Quota j num made written) (hmade : ∀ t, (made t : Int) = num t) :
    (∀ t, t ≠ j → (written t : Int) = num t) ∧ num j ≤ written j := by
  refine ⟨fun t ht => ?_, ?_⟩
  · rw [← hmade, h.grown.same t ht, Pi.zero_apply, Nat.zero_add]
  · have hspare := h.grown.spare
    rw [Pi.zero_apply, Nat.zero_add] at hspare
    rw [← hmade]
    exact Int.ofNat_le.mpr hspare

end Quota

end SimpleCpu.HexGen
