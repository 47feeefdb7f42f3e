import SimpleCpu.HexGen.Written
import SimpleCpu.Mips.HexGen.Replay

/-!
# The main loop of the MIPS generator

`gen_instr_hex` draws a format in each round, and requests a word of it if some are left to be
made; `gen_end_seq` comes behind the loop.  The files hold as many words of each format as have
been asked for, with the two words of the end sequence (`hexGen_written`), if no slot has been
written twice.
-/

namespace SimpleCpu.Mips.HexGen

open SimpleCpu.HexGen SimpleCpu.Iss SimpleCpu.Mips.Iss SimpleCpu.Mips.Isa

/-! ## The words of a format -/

/-- How many words of a format are written. -/
def Gen.written (g : Gen) (t : InstrType) : Nat :=
  (g.printToFile.map Prod.snd).countP fun w => decodeInstrType w == t

/-- The format of the words of a request. -/
def Request.format : Request → InstrType
  | .r _ => .r
  | .i _ => .i
  | .j => .j

section Written

variable {g g' g₁ : Gen} {t : InstrType} {w : BitVec 32}

/-- One line for each taken slot. -/
theorem printToFile_eq (g : Gen) :
    g.printToFile = (fileIndices.filter g.pc).map fun i => (i, g.instr i) := by
  unfold Gen.printToFile
  exact filterMap_fileIndices g.pc fun i => (i, g.instr i)

theorem written_eq (g : Gen) :
    g.written = formats (fun t w => decodeInstrType w == t) g.pc g.instr := by
  funext t
  unfold Gen.written
  rw [printToFile_eq]
  exact countWords_eq _

/-- A word at a free slot counts for its format. -/
theorem Placed.written (hp : Placed g w g.cur g') (hr : Replaying g)
    (hfree : g.pc g.cur = false) (hw : decodeInstrType w = t) :
    g'.written = g.written + Pi.single t 1 := by
  have hbound : g.cur.toNat < 0x2000 := hp.bound
  rw [written_eq, written_eq, hp.pc, hp.instr]
  refine formats_place (mem_fileIndices hbound hr.aligned.mod_eq) hfree fun t' => ?_
  rw [hw, beq_eq_decide]
  exact decide_eq_decide.mpr eq_comm

/-- Every word has the format that has been asked for. -/
theorem format_of_drawn {r : Request} (hw : Chosen g r w) (hr : r.isDrawn = true) :
    decodeInstrType w = r.format := by
  obtain ⟨f, rd, rs, rt, rfl, hx⟩ | ⟨a, rfl, rfl, hop, himm, -⟩ | ⟨t, rfl, hx⟩ :=
    hw.drawn_cases hr
  · exact format_r hx
  · obtain ⟨-, -, hword⟩ := iWord_of_drawn hop himm
    rw [decodeInstrType_eq, (fields_iWord _ _ hword).1]
    unfold opcodeValIType at hop
    simp only [List.mem_cons, List.not_mem_nil, or_false] at hop
    rcases hop with h | h | h | h | h | h | h | h <;> rw [h] <;> rfl
  · exact format_j hx

/-- A jump that makes room comes on top. -/
theorem makeRoom_written (hr : Replaying g) (hprev : g.prevPc = g.cur) (hfresh : Fresh g)
    (h : g.makeRoom = .ok g₁) : Grown .j g.written g₁.written 0 := by
  obtain ⟨-, ⟨-, rfl⟩ | ⟨i, hj⟩⟩ := makeRoom_cases hr.toSettled h
  · exact .refl
  · have hfree := (hfresh.resolve_left fun hroom => by
      rw [hj.hasRoom] at hroom
      exact absurd hroom nofun).1
    have hp := hj.placed
    rw [hprev] at hp
    have hbound := hj.bound
    obtain ⟨x, hx, -⟩ := decodeInstr_genJ (by omega) hj.aligned
    exact .of_spare (hp.written hr hfree (format_j hx))

/-- A request counts for its format. -/
theorem request_written {r : Request} (hb : Between g) (hr : Replaying g) (hfresh : Fresh g)
    (hdrawn : r.isDrawn = true) (h : g.request r = .ok g') :
    Grown .j g.written g'.written (Pi.single r.format 1) := by
  obtain ⟨-, g₁, w, hroom, -, -, hw, hp⟩ := request_placed hb h
  obtain ⟨hr₁, hfree, -⟩ := makeRoom_replaying hr hb.prev hfresh hroom
  have hword := hp.written hr₁ hfree (format_of_drawn hw hdrawn)
  have hgrown := (makeRoom_written hr hb.prev hfresh hroom).trans (.of_eq hword)
  rwa [zero_add] at hgrown

/-- The end sequence is a word with an immediate and a register word. -/
theorem genEndSeq_written (hb : Between g) (hr : Replaying g) (hfresh : Fresh g)
    (hroom : EndRoom g) (h : g.genEndSeq = .ok g') :
    Grown .j g.written g'.written (Pi.single .i 1 + Pi.single .r 1) := by
  have haddi : decodeInstrType Gen.addiOpcode = .i := by decide
  have hsyscall : decodeInstrType Gen.syscallOpcode = .r := by decide
  obtain ⟨g₁, g₂, g₃, hrun⟩ := genEndSeq_ok hb h
  obtain ⟨hr₁, hfree₁, -⟩ := makeRoom_replaying hr hb.prev hfresh hrun.room₁
  obtain ⟨hr₂, -, hfree₂, hp⟩ := hrun.replaying hb hr hfresh hroom
  have hwords : g'.written = g₁.written + (Pi.single .i 1 + Pi.single .r 1) := by
    rw [hp.written hr₂ hfree₂ hsyscall, hrun.addi.written hr₁ hfree₁ haddi, add_assoc]
  have hgrown := (makeRoom_written hr hb.prev hfresh hrun.room₁).trans (.of_eq hwords)
  rwa [zero_add] at hgrown

end Written

/-! ## Rounds -/

/-- How many words of a format have been made. -/
def Loop.made (l : Loop) : InstrType → Nat
  | .r => l.rGen
  | .i => l.iGen
  | .j => l.jGen

section Rounds

variable (numR numI numJ : Int)

/-- How many are to be made. -/
def wanted : InstrType → Int
  | .r => numR
  | .i => numI
  | .j => numJ

/-- The test of the loop. -/
def Loop.Unfinished (l : Loop) : Prop := (l.rGen + l.iGen + l.jGen : Int) < numR + numI + numJ

instance (l : Loop) : Decidable (l.Unfinished numR numI numJ) :=
  inferInstanceAs (Decidable (_ < _))

/-- What holds in front of every round. -/
structure Counted (l : Loop) : Prop where
  run : Run Clean l.gen
  quota : Quota .j (wanted numR numI numJ) l.made l.gen.written

variable {numR numI numJ} {l l' : Loop} {g g' : Gen} {rand : List Nat}

/-- A number leads to a request if one is left of its format. -/
theorem choice_some {n : Nat} {r : Request} (h : l.choice numR numI numJ n = some r) :
    r.isDrawn = true ∧ (l.made r.format : Int) < wanted numR numI numJ r.format := by
  unfold Loop.choice at h
  split at h
  next =>
    obtain ⟨hlt, h⟩ := Option.ite_none_right_eq_some.mp h
    obtain rfl := Option.some.inj h
    exact ⟨rfl, hlt⟩
  next =>
    split at h
    next =>
      obtain ⟨hlt, h⟩ := Option.ite_none_right_eq_some.mp h
      obtain rfl := Option.some.inj h
      exact ⟨rfl, hlt⟩
    next =>
      obtain ⟨hlt, h⟩ := Option.ite_none_right_eq_some.mp h
      obtain rfl := Option.some.inj h
      exact ⟨rfl, hlt⟩

/-- A round draws a number, and it makes a request if one is left of the format. -/
theorem round_cases (h : l.round numR numI numJ = .ok l') :
    (∃ rand, l' = { l with gen := { l.gen with rand := rand } }) ∨
      ∃ r rand g, r.isDrawn = true ∧ (l.made r.format : Int) < wanted numR numI numJ r.format ∧
        { l.gen with rand := rand }.request r = .ok g ∧ l' = l.count g r := by
  unfold Loop.round at h
  split at h
  next => exact absurd h nofun
  next n rand hrand =>
      dsimp only at h
      split at h
      next => exact Or.inl ⟨rand, (Except.ok.inj h).symm⟩
      next r hr =>
          obtain ⟨g, hreq, h⟩ := bind_ok h
          obtain ⟨hdrawn, hlt⟩ := choice_some hr
          exact Or.inr ⟨r, rand, g, hdrawn, hlt, hreq, (Except.ok.inj h).symm⟩

/-- What is drawn has not been given. -/
theorem given_of_isDrawn {r : Request} (h : r.isDrawn = true) : r.given = none := by
  cases r with
  | r args =>
      obtain rfl := Option.isNone_iff_eq_none.mp h
      rfl
  | i args =>
      obtain rfl := Option.isNone_iff_eq_none.mp h
      rfl
  | j => rfl

theorem count_made (l : Loop) (g : Gen) (r : Request) :
    (l.count g r).made = l.made + Pi.single r.format 1 ∧ (l.count g r).gen = g := by
  cases r with
  | r | i | j => exact ⟨funext fun t => by cases t <;> rfl, rfl⟩

theorem written_withRand (g : Gen) (rand : List Nat) :
    { g with rand := rand }.written = g.written := by
  rw [written_eq, written_eq]

theorem counted_init (hnum : ∀ t, 0 ≤ wanted numR numI numJ t) (rand : List Nat) :
    Counted numR numI numJ { gen := init rand } where
  run := .init rand
  quota := by
    have hmade : Loop.made { gen := init rand } = 0 := funext fun t => by cases t <;> rfl
    have hwritten : (init rand).written = 0 := (written_eq _).trans (formats_empty fun _ => rfl)
    rw [hmade, hwritten]
    exact .zero hnum

/-- One round. -/
theorem Counted.round (hc : Counted numR numI numJ l) (hfresh : Fresh l.gen)
    (h : l.round numR numI numJ = .ok l') : Counted numR numI numJ l' := by
  obtain ⟨rand, rfl⟩ | ⟨r, rand, g, hdrawn, hlt, hreq, rfl⟩ := round_cases h
  · refine ⟨.draw rand hc.run, ?_⟩
    rw [written_withRand]
    exact hc.quota
  · have hrun : Run Clean { l.gen with rand := rand } := .draw rand hc.run
    have hgrown := request_written hrun.between hrun.replaying hfresh hdrawn hreq
    rw [written_withRand] at hgrown
    have hclean : Clean { l.gen with rand := rand } r := by
      refine ⟨hfresh, fun w hw => ?_⟩
      rw [given_of_isDrawn hdrawn] at hw
      exact absurd hw nofun
    obtain ⟨hmade, hgen⟩ := count_made l g r
    refine ⟨?_, ?_⟩
    · rw [hgen]
      exact .request hrun hclean hreq
    · rw [hmade, hgen]
      exact hc.quota.step hlt hgrown

theorem genInstrHex_isLoop :
    IsLoop (Loop.Unfinished numR numI numJ) (Loop.round numR numI numJ) Loop.gen
      (genInstrHex numR numI numJ) :=
  .of_ite (fun _ => rfl) fun _ _ => rfl

/-- A loop that is finished has made what has been asked for. -/
theorem Counted.made_eq (hc : Counted numR numI numJ l) (hdone : ¬ l.Unfinished numR numI numJ) :
    ∀ t, (l.made t : Int) = wanted numR numI numJ t := by
  refine hc.quota.made_eq (l := [.r, .i, .j]) (fun t => by cases t <;> decide) ?_
  unfold Loop.Unfinished at hdone
  simp only [List.map_cons, List.map_nil, List.sum_cons, List.sum_nil, Loop.made, wanted]
  omega

/-- If no slot is written twice, the files hold as many words of each format as have been asked
for, the two words of the end sequence, and some more jumps. -/
theorem hexGen_written (hr : 0 ≤ numR) (hi : 0 ≤ numI) (hj : 0 ≤ numJ)
    (h : hexGen numR numI numJ rand = .ok g')
    (hfresh : ∀ l, Rounds (Loop.Unfinished numR numI numJ) (Loop.round numR numI numJ)
      { gen := init rand } l → Fresh l.gen ∧ (¬ l.Unfinished numR numI numJ → EndRoom l.gen)) :
    g'.written .r = numR + 1 ∧ g'.written .i = numI + 1 ∧ numJ ≤ g'.written .j := by
  have hnum : ∀ t, 0 ≤ wanted numR numI numJ t := by
    intro t
    cases t with
    | r => exact hr
    | i => exact hi
    | j => exact hj
  obtain ⟨g, hloop, hend⟩ := bind_ok h
  obtain ⟨l, hrounds, hdone, rfl⟩ := genInstrHex_isLoop.rounds .refl hloop
  have hc := hrounds.invariant (counted_init hnum rand)
    fun l₁ l₂ hl _ hc hround => hc.round (hfresh l₁ hl).1 hround
  obtain ⟨hfreshl, hroom⟩ := hfresh l hrounds
  have hgrown := genEndSeq_written hc.run.between hc.run.replaying hfreshl (hroom hdone) hend
  obtain ⟨hsame, hjumps⟩ := hc.quota.full (hc.made_eq hdone)
  have hwr : g'.written .r = l.gen.written .r + 1 := hgrown.same .r nofun
  have hwi : g'.written .i = l.gen.written .i + 1 := hgrown.same .i nofun
  have hwj : l.gen.written .j ≤ g'.written .j := Nat.le_of_add_right_le hgrown.spare
  have hnumR : (l.gen.written .r : Int) = numR := hsame .r nofun
  have hnumI : (l.gen.written .i : Int) = numI := hsame .i nofun
  have hnumJ : numJ ≤ l.gen.written .j := hjumps
  refine ⟨?_, ?_, ?_⟩
  · rw [hwr, ← hnumR]
    rfl
  · rw [hwi, ← hnumI]
    rfl
  · omega

/-- `J 0x10`, `J 0xC` and `ADD`, for the last of which a jump from 0xC to 4 makes room. -/
def threeWords : List Nat := [2, 0, 4, 2, 0, 3, 0, 0, 0, 0, 1, 0]

/-- Another jump makes room for the end sequence. -/
theorem hexGen_written_threeWords : ∃ g', hexGen 1 0 2 threeWords = .ok g' ∧
    g'.trace.map (fun st => st.pc) = [0, 0x10, 0xC, 4, 8, 0x14, 0x18] ∧
    g'.written .r = 2 ∧ g'.written .i = 1 ∧ 2 ≤ g'.written .j := by
  have hrun : (hexGen 1 0 2 threeWords).toOption.any (fun g => decide
      (g.trace.map (fun st => st.pc) = [0, 0x10, 0xC, 4, 8, 0x14, 0x18])) = true := by
    decide +kernel
  have hrounds : checkRounds (Loop.Unfinished 1 0 2) (Loop.round 1 0 2) (fun l =>
      decide (Fresh l.gen) && (decide (l.Unfinished 1 0 2) || decide (EndRoom l.gen))) 4
      { gen := init threeWords } = true := by
    decide +kernel
  obtain ⟨g', hg', htrace⟩ := exists_of_any hrun
  obtain ⟨hr, hi, hj⟩ := hexGen_written (by decide) (by decide) (by decide) hg' fun l hl => by
    have hcheck := of_checkRounds hrounds hl
    rw [Bool.and_eq_true, Bool.or_eq_true] at hcheck
    obtain ⟨hfresh, hroom⟩ := hcheck
    refine ⟨of_decide_eq_true hfresh, fun hdone => ?_⟩
    exact of_decide_eq_true (hroom.resolve_left fun hmore => hdone (of_decide_eq_true hmore))
  exact ⟨g', hg', of_decide_eq_true htrace, Int.ofNat.inj hr, Int.ofNat.inj hi,
    Int.ofNat_le.mp hj⟩

end Rounds

end SimpleCpu.Mips.HexGen
