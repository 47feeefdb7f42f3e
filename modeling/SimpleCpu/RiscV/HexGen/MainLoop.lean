import SimpleCpu.RiscV.HexGen.Replay

/-!
# The main loop of the RISC-V generator

In each round `gen_instr_hex` draws a format, and requests a word of it if some are left to be
made.  When the loop ends, the files hold as many words of each format as have been asked for
(`hexGen_formats`), as long as there has been a place for each; the jumps of `make_room` come on
top of those that have been asked for.
-/

namespace SimpleCpu.RiscV.HexGen

open SimpleCpu.HexGen SimpleCpu.Iss SimpleCpu.RiscV.Iss

/-! ## The words of a format -/

/-- How many words of a format are written. -/
def Gen.written (g : Gen) (t : InstrType) : Nat :=
  (g.printToFile.map Prod.snd).countP fun w => decodeInstrType w == some t

section Written

variable {g g' g₁ : Gen} {t : InstrType} {w : BitVec 32}

theorem written_eq (g : Gen) :
    g.written = formats (fun t w => decodeInstrType w == some t) g.pc g.instr := by
  funext t
  unfold Gen.written
  rw [printToFile_eq]
  exact countWords_eq _

/-- A word at a free slot counts for its format. -/
theorem Placed.written (hp : Placed g w g.cur g') (hslot : IsSlot g.cur)
    (hfree : g.pc g.slot = false) (hw : decodeInstrType w = some t) :
    g'.written = g.written + Pi.single t 1 := by
  rw [written_eq, written_eq, hp.pc, hp.instr]
  refine formats_place hslot.mem_slot hfree fun t' => ?_
  rw [hw, beq_eq_decide]
  exact decide_eq_decide.mpr (Option.some_inj.trans eq_comm)

/-- A jump that makes room comes on top. -/
theorem makeRoom_written (hb : Between g) (hplace : HasPlace g) (h : g.makeRoom = .ok g₁) :
    Grown .j g.written g₁.written 0 := by
  obtain ⟨hcur, -⟩ := makeRoom_cases hb h
  rcases Gen.makeRoom_ok h with ⟨-, rfl⟩ | ⟨i, n, -, hfound, hp, -⟩
  · exact .refl
  · rw [hb.prev] at hp
    obtain ⟨hmem, -, -, hi, -⟩ := Slots.find_ok hfound
    obtain ⟨-, heven⟩ := slot_distance (isSlot_of_index hi (mem_roomIndices hmem).1) hcur
    exact .of_spare (hp.written hcur hplace.1 (genJ_decodesAs heven n).format)

/-- A request counts for its format. -/
theorem request_written (hb : Between g) (hplace : HasPlace g) (h : g.request t = .ok g') :
    Grown .j g.written g'.written (Pi.single t 1) := by
  obtain ⟨g₁, w, hroom, hd, he⟩ := request_drawn h
  have hslot := makeRoom_isSlot hb hroom
  have hfree := ((makeRoom_madeRoom_iff hb hroom).mpr hplace).current
  have hp := he.placed_cur (hb.makeRoom hroom)
  have hgrown := (makeRoom_written hb hplace hroom).trans
    (.of_eq (hp.written hslot hfree hd.format))
  rwa [zero_add] at hgrown

end Written

/-! ## Rounds -/

/-- The test of the loop. -/
def Loop.Unfinished (num : InstrType → Int) (l : Loop) : Prop :=
  total (fun t => l.made t) < total num

instance (num : InstrType → Int) (l : Loop) : Decidable (l.Unfinished num) :=
  inferInstanceAs (Decidable (_ < _))

/-- What holds in front of every round. -/
structure Counted (num : InstrType → Int) (l : Loop) : Prop where
  between : Between l.gen
  quota : Quota .j num l.made l.gen.written

section Rounds

variable {num : InstrType → Int} {preload : Bool} {rand : List Nat} {l l' : Loop} {g : Gen}

/-- A round draws a number, and it makes a request if one is left of the format. -/
theorem round_cases (h : l.round num = .ok l') :
    (∃ rand, l' = { l with gen := { l.gen with rand := rand } }) ∨
      ∃ t rand g, l.made t < num t ∧ { l.gen with rand := rand }.request t = .ok g ∧
        l' = { made := l.made + Pi.single t 1, gen := g } := by
  unfold Loop.round at h
  split at h
  next => exact absurd h nofun
  next n rand hrand =>
      dsimp only at h
      split at h
      next hlt =>
          obtain ⟨g, hreq, h⟩ := bind_ok h
          refine Or.inr ⟨_, rand, g, hlt, hreq, ?_⟩
          rw [← update_succ]
          exact (Except.ok.inj h).symm
      next => exact Or.inl ⟨rand, (Except.ok.inj h).symm⟩

theorem written_withRand (g : Gen) (rand : List Nat) :
    { g with rand := rand }.written = g.written := by
  rw [written_eq, written_eq]

theorem counted_init (hnum : ∀ t, 0 ≤ num t) (preload : Bool) (rand : List Nat) :
    Counted num { gen := init preload rand } where
  between := Reachable.between ⟨preload, rand, .refl⟩
  quota := by
    have hwritten : (init preload rand).written = 0 :=
      (written_eq _).trans (formats_empty fun _ => rfl)
    rw [hwritten]
    exact .zero hnum

/-- One round. -/
theorem Counted.round (hc : Counted num l) (hplace : HasPlace l.gen)
    (h : l.round num = .ok l') : Counted num l' := by
  have hbetween : ∀ rand, Between { l.gen with rand := rand } := fun _ =>
    ⟨hc.between.prev, hc.between.onSlot, hc.between.first⟩
  obtain ⟨rand, rfl⟩ | ⟨t, rand, g, hlt, hreq, rfl⟩ := round_cases h
  · refine ⟨hbetween rand, ?_⟩
    rw [written_withRand]
    exact hc.quota
  · have hgrown := request_written (hbetween rand) hplace hreq
    rw [written_withRand] at hgrown
    exact ⟨(request_placed (hbetween rand) hreq).1, hc.quota.step hlt hgrown⟩

theorem genInstrHex_isLoop :
    IsLoop (Loop.Unfinished num) (Loop.round num) Loop.gen (genInstrHex num) :=
  .of_ite (fun _ => rfl) fun _ _ => rfl

/-- A loop that is finished has made what has been asked for. -/
theorem Counted.made_eq (hc : Counted num l) (hdone : ¬ l.Unfinished num) :
    ∀ t, (l.made t : Int) = num t := by
  refine hc.quota.made_eq (l := [.r, .i, .s, .b, .u, .j]) (fun t => by cases t <;> decide) ?_
  unfold Loop.Unfinished total at hdone
  dsimp only at hdone
  simp only [List.map_cons, List.map_nil, List.sum_cons, List.sum_nil]
  omega

/-- If there is a place for each word, the files hold as many words of each format as have
been asked for, and some more jumps. -/
theorem hexGen_formats (hnum : ∀ t, 0 ≤ num t) (h : hexGen num preload rand = .ok g)
    (hplace : ∀ l, Rounds (Loop.Unfinished num) (Loop.round num) { gen := init preload rand } l →
      l.Unfinished num → HasPlace l.gen) :
    (∀ t, t ≠ .j → (g.written t : Int) = num t) ∧ num .j ≤ g.written .j := by
  obtain ⟨l, hrounds, hdone, rfl⟩ := genInstrHex_isLoop.rounds .refl h
  have hc := hrounds.invariant (counted_init hnum preload rand)
    fun l₁ l₂ hl hmore hc hround => hc.round (hplace l₁ hl hmore) hround
  exact hc.quota.full (hc.made_eq hdone)

/-- Two words of `gen_r_instr` and two of `gen_b_instr`. -/
def twoRB : InstrType → Int := fun t => if t = .r ∨ t = .b then 2 else 0

/-- The second branch leads back behind the first word, and a jump from there makes room for
the second. -/
def branchBack : List Nat := [0, 3, 1, 2, 3, 3, 0, 0, 0, 2, 3, 0, 0, 0, 2047, 0, 0, 3, 1, 2, 3]

theorem hexGen_formats_branchBack : ∃ g, hexGen twoRB false branchBack = .ok g ∧
    g.written .r = 2 ∧ g.written .b = 2 ∧ g.written .j = 1 := by
  have hrun : (hexGen twoRB false branchBack).toOption.any
      (fun g => decide (g.written .j = 1)) = true := by
    decide +kernel
  have hrounds : checkRounds (Loop.Unfinished twoRB) (Loop.round twoRB) (fun l =>
      !decide (l.Unfinished twoRB) || l.gen.freeAhead) 5 { gen := init false branchBack } = true := by
    decide +kernel
  obtain ⟨g, hg, hjump⟩ := exists_of_any hrun
  have hwritten := hexGen_formats (fun t => by cases t <;> decide) hg fun l hl hmore => by
    have hslots := of_checkRounds hrounds hl
    rw [decide_eq_true hmore] at hslots
    exact hasPlace_of_freeAhead hslots
  exact ⟨g, hg, Int.ofNat.inj (hwritten.1 .r nofun), Int.ofNat.inj (hwritten.1 .b nofun),
    of_decide_eq_true hjump⟩

end Rounds

end SimpleCpu.RiscV.HexGen
