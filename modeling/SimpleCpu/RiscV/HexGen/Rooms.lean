import SimpleCpu.RiscV.HexGen.Steps

/-!
# Rooms of the RISC-V program generator

`make_room` is to leave the program counter at two free slots, and to spoil nothing on the
way.  The jump that it places goes to two free slots, but nothing asks whether the slot of
the jump itself is free, or whether the jump takes one of the two.

* `Between`: what holds whenever `make_room` is called.
* `makeRoom_cases`: it does nothing, or it jumps from the program counter.
* `madeRoom_iff`: where it does what it is for.
-/

namespace SimpleCpu.RiscV.HexGen

open SimpleCpu.HexGen SimpleCpu.Iss SimpleCpu.RiscV.Iss

/-! ## Runs -/

/-- Requests one after the other, with any numbers drawn, each in a state that satisfies
`ok`. -/
inductive Steps (ok : Gen → Prop) (g : Gen) : Gen → Prop where
  | refl : Steps ok g g
  | draw {g₁ : Gen} (rand : List Nat) : Steps ok g g₁ → Steps ok g { g₁ with rand := rand }
  | request {g₁ g₂ : Gen} {t : InstrType} : Steps ok g g₁ → ok g₁ → g₁.request t = .ok g₂ →
      Steps ok g g₂

/-- Requests one after the other. -/
def Gen.requests (g : Gen) : List InstrType → Except Stop Gen
  | [] => .ok g
  | t :: ts => do Gen.requests (← g.request t) ts

theorem Steps.requests {g g₁ g₂ : Gen} {ts : List InstrType} (h : Steps (fun _ => True) g g₁)
    (hts : g₁.requests ts = .ok g₂) : Steps (fun _ => True) g g₂ := by
  induction ts generalizing g₁ with
  | nil =>
      obtain rfl := Except.ok.inj hts
      exact h
  | cons t ts ih =>
      obtain ⟨g', hreq, hts⟩ := bind_ok hts
      exact ih (h.request trivial hreq) hts

/-- The states that requests lead to. -/
def Reachable (g : Gen) : Prop :=
  ∃ preloadArchRegs rand, Steps (fun _ => True) (init preloadArchRegs rand) g

theorem Reachable.steps {ok : Gen → Prop} {g g' : Gen} (hr : Reachable g)
    (h : Steps ok g g') : Reachable g' := by
  induction h with
  | refl => exact hr
  | draw rand _ ih =>
      obtain ⟨preload, rand₀, hsteps⟩ := ih
      exact ⟨preload, rand₀, hsteps.draw rand⟩
  | request _ _ hreq ih =>
      obtain ⟨preload, rand₀, hsteps⟩ := ih
      exact ⟨preload, rand₀, hsteps.request trivial hreq⟩

/-! ## The first pair of free slots -/

/-- Where the search of `make_room` ends. -/
structure FirstPair (pc : Slots) (i : BitVec 32) : Prop where
  mem : i ∈ Gen.roomIndices
  free : pc i = false
  free4 : pc (i + 4) = false
  first : ∀ j ∈ Gen.roomIndices, j.toNat < i.toNat → pc j = true ∨ pc (j + 4) = true

theorem mem_roomIndices {i : BitVec 32} (h : i ∈ Gen.roomIndices) :
    i.toNat % 4 = 0 ∧ 4 ≤ i.toNat ∧ i.toNat ≤ 0x1FFC := by
  obtain ⟨k, hk, rfl⟩ := List.mem_map.mp h
  have hk' := List.mem_range.mp hk
  rw [BitVec.toNat_ofNat]
  omega

/-- The indices go up. -/
theorem roomIndices_pairwise :
    Gen.roomIndices.Pairwise fun i j => i.toNat < j.toNat := by
  refine List.pairwise_map.mpr (List.pairwise_lt_range.imp_of_mem fun {k l} hk hl hlt => ?_)
  have hk' := List.mem_range.mp hk
  have hl' := List.mem_range.mp hl
  rw [BitVec.toNat_ofNat, BitVec.toNat_ofNat]
  omega

theorem FirstPair.unique {pc : Slots} {i j : BitVec 32} (hi : FirstPair pc i)
    (hj : FirstPair pc j) : i = j := by
  apply BitVec.eq_of_toNat_eq
  rcases Nat.lt_trichotomy i.toNat j.toNat with hlt | heq | hgt
  · rcases hj.first i hi.mem hlt with hused | hused
    · exact absurd (hused.symm.trans hi.free) Bool.noConfusion
    · exact absurd (hused.symm.trans hi.free4) Bool.noConfusion
  · exact heq
  · rcases hi.first j hj.mem hgt with hused | hused
    · exact absurd (hused.symm.trans hj.free) Bool.noConfusion
    · exact absurd (hused.symm.trans hj.free4) Bool.noConfusion

/-- The search over indices that go up finds the least. -/
theorem find_first {pc : Slots} {is : List (BitVec 32)} {i : BitVec 32}
    (hsorted : is.Pairwise fun i j => i.toNat < j.toNat) (h : pc.find is = .ok (some i)) :
    ∀ j ∈ is, j.toNat < i.toNat → pc j = true ∨ pc (j + 4) = true := by
  induction is with
  | nil => exact absurd h nofun
  | cons k is ih =>
      obtain ⟨hk, hrest⟩ := List.pairwise_cons.mp hsorted
      obtain ⟨free, hfree, h⟩ := bind_ok h
      obtain ⟨hiff, -, -⟩ := Slots.isFree_ok hfree
      intro j hj hlt
      cases free with
      | true =>
          obtain rfl := Option.some.inj (Except.ok.inj h)
          rcases List.mem_cons.mp hj with rfl | hmem
          · exact absurd hlt (Nat.lt_irrefl _)
          · exact absurd hlt (Nat.lt_asymm (hk j hmem))
      | false =>
          rcases List.mem_cons.mp hj with rfl | hmem
          · cases hpc : pc j with
            | true => exact .inl rfl
            | false =>
                cases hpc4 : pc (j + 4) with
                | true => exact .inr rfl
                | false => exact absurd (hiff.mpr ⟨hpc, hpc4⟩) Bool.false_ne_true
          · exact ih hrest h j hmem hlt

theorem firstPair_of_find {pc : Slots} {i : BitVec 32}
    (h : pc.find Gen.roomIndices = .ok (some i)) : FirstPair pc i := by
  obtain ⟨hmem, hfree, hfree4, -, -⟩ := Slots.find_ok h
  exact ⟨hmem, hfree, hfree4, find_first roomIndices_pairwise h⟩

/-! ## Making room -/

/-- The index of the current slot. -/
def Gen.slot (g : Gen) : BitVec 32 := g.cur - memTextStart

/-- What holds whenever `make_room` is called. -/
structure Between (g : Gen) : Prop where
  prev : g.prevPc = g.cur
  onSlot : OnSlot g.cur
  first : g.instrGen = 0 → g.cur = memTextStart ∧ ∀ i, g.pc i = false

/-- A jump of `make_room`, from the program counter to the first two free slots.  It is
recorded for the program counter. -/
structure Jumped (g : Gen) (i : BitVec 32) (g' : Gen) : Prop where
  hasRoom : g.hasRoom = .ok false
  found : FirstPair g.pc i
  cur : g'.cur = i + memTextStart
  pc : g'.pc = Function.update g.pc g.slot true
  instr : ∃ w, g'.instr = Function.update g.instr g.slot w
  prev : g'.prevPc = g'.cur
  instrGen : g'.instrGen = g.instrGen

theorem isSlot_of_index {i : BitVec 32} (hi : i < imemSize) (h4 : i.toNat % 4 = 0) :
    IsSlot (i + memTextStart) := by
  have hlt : i.toNat < 0x2000 := hi
  have hsum : (i + memTextStart).toNat = i.toNat + 0x2000 := by
    rw [BitVec.toNat_add]
    show (i.toNat + 0x2000) % 2 ^ 32 = i.toNat + 0x2000
    omega
  exact isSlot_iff.mpr ⟨by omega, by omega, by omega⟩

/-- The distance of two slots fits the format of a jump. -/
theorem slot_distance {a b : BitVec 32} (ha : IsSlot a) (hb : IsSlot b) :
    ((a - b).setWidth 21).signExtend 32 = a - b ∧ (a - b) &&& 1 = 0 := by
  obtain ⟨halo, hahi⟩ := ha.range
  obtain ⟨hblo, hbhi⟩ := hb.range
  have ha4 := ha.aligned
  have hb4 := hb.aligned
  have hsub : (a - b).toNat = (2 ^ 32 - b.toNat + a.toNat) % 2 ^ 32 := BitVec.toNat_sub a b
  have h4 : (a - b).toNat % 4 = 0 := by omega
  constructor
  · by_cases hle : b.toNat ≤ a.toNat
    · exact signExtend_of_lt (k := 20) (by omega)
    · have hbit : (a - b).getLsbD 20 = true := by
        show (a - b).toNat.testBit 20 = true
        rw [Nat.testBit_eq_decide_div_mod_eq, decide_eq_true_iff]
        omega
      apply BitVec.eq_of_toNat_eq
      have hmsb : ((a - b).setWidth 21).msb = true := by
        rw [BitVec.msb_eq_getLsbD_last, BitVec.getLsbD_setWidth, hbit]
        rfl
      rw [BitVec.toNat_signExtend, hmsb, if_pos rfl, BitVec.toNat_setWidth,
        BitVec.toNat_setWidth]
      omega
  · apply BitVec.eq_of_toNat_eq
    have hone : ((a - b) &&& 1).toNat = (a - b).toNat % 2 := by
      rw [BitVec.toNat_and]
      exact Nat.and_two_pow_sub_one_eq_mod _ 1
    rw [hone]
    show (a - b).toNat % 2 = 0
    omega

section Room

variable {g g₁ : Gen}

/-- `make_room` leaves the state alone, or it jumps. -/
theorem makeRoom_cases (hb : Between g) (h : g.makeRoom = .ok g₁) :
    IsSlot g.cur ∧ ((g.hasRoom = .ok true ∧ g₁ = g) ∨ ∃ i, Jumped g i g₁) := by
  rcases Gen.makeRoom_ok h with ⟨hroom, rfl⟩ | ⟨i, n, hroom, hfound, hp, hgen⟩
  · have hbound := (Gen.hasRoom_ok hroom).2
    exact ⟨⟨hbound, hb.onSlot hbound⟩, .inl ⟨hroom, rfl⟩⟩
  · have hbound := (Gen.hasRoom_ok hroom).2
    have hcur : IsSlot g.cur := ⟨hbound, hb.onSlot hbound⟩
    obtain ⟨hmem, -, -, hi, -⟩ := Slots.find_ok hfound
    have htarget := isSlot_of_index hi (mem_roomIndices hmem).1
    obtain ⟨hrange, heven⟩ := slot_distance htarget hcur
    obtain ⟨s, hs, hnext⟩ := hp.cur_eq hcur
    have hcur' : g₁.cur = i + memTextStart := by
      rw [hnext, (genJ_decodesAs heven n).executeWord_eq, (executeJ_jumps ..).1, hs]
      exact genJ_target hrange
    have hslot : g.prevPc - memTextStart = g.slot := by
      rw [hb.prev]
      rfl
    refine ⟨hcur, .inr ⟨i, hroom, firstPair_of_find hfound, hcur', ?_,
      ⟨genJ g.cur (i + memTextStart) n, ?_⟩, hp.prev, hgen⟩⟩
    · rw [hp.pc, hslot]
    · rw [hp.instr, hslot]

/-- Where `make_room` leaves the program counter, there is a slot. -/
theorem makeRoom_isSlot (hb : Between g) (h : g.makeRoom = .ok g₁) : IsSlot g₁.cur := by
  obtain ⟨hcur, ⟨-, rfl⟩ | ⟨i, hj⟩⟩ := makeRoom_cases hb h
  · exact hcur
  · have hmem := mem_roomIndices hj.found.mem
    rw [hj.cur]
    refine isSlot_of_index ?_ hmem.1
    show i.toNat < 0x2000
    omega

theorem Between.makeRoom (hb : Between g) (h : g.makeRoom = .ok g₁) : Between g₁ := by
  have hslot := makeRoom_isSlot hb h
  obtain ⟨hcur, ⟨-, rfl⟩ | ⟨i, hj⟩⟩ := makeRoom_cases hb h
  · exact hb
  · refine ⟨hj.prev, fun _ => hslot.aligned, fun h0 => ?_⟩
    rw [hj.instrGen] at h0
    obtain ⟨-, hall⟩ := hb.first h0
    have htrue : false = true := (Gen.hasRoom_ok hj.hasRoom).1.mpr ⟨hall _, hall _⟩
    exact absurd htrue Bool.false_ne_true

/-- A request places its word at the slot that `make_room` leaves. -/
theorem request_placed {g' : Gen} (hb : Between g) {t : InstrType}
    (h : g.request t = .ok g') :
    Between g' ∧ ∃ g₁ w, g.makeRoom = .ok g₁ ∧ Between g₁ ∧ Placed g₁ w g₁.cur g' := by
  obtain ⟨g₁, w, hroom, he⟩ := request_ok h
  have hb₁ := hb.makeRoom hroom
  have hslot := makeRoom_isSlot hb hroom
  have hp := he.placed
  have hgen := he.instrGen
  have hcur : (if g₁.instrGen = 0 then memTextStart else g₁.prevPc) = g₁.cur := by
    split
    next h0 => exact (hb₁.first h0).1.symm
    next => exact hb₁.prev
  rw [hcur] at hp
  refine ⟨⟨hp.prev, ?_, fun h0 => by omega⟩, g₁, w, hroom, hb₁, hp⟩
  obtain ⟨s, hs, hnext⟩ := hp.cur_eq hslot
  rw [hnext]
  exact he.leads hslot.aligned s hs

end Room

theorem Reachable.between {g : Gen} (h : Reachable g) : Between g := by
  obtain ⟨preload, rand₀, hsteps⟩ := h
  induction hsteps with
  | refl =>
      have h4 : memTextStart.toNat % 4 = 0 := rfl
      exact ⟨rfl, onSlot_of_aligned h4, fun _ => ⟨rfl, fun _ => rfl⟩⟩
  | draw rand _ ih => exact ⟨ih.prev, ih.onSlot, ih.first⟩
  | request _ _ hreq ih => exact (request_placed ih hreq).1

/-! ## What making room is for -/

/-- The program counter is at two free slots, and a jump that was stored went to a slot that
was free. -/
structure MadeRoom (g g' : Gen) : Prop where
  current : g'.pc g'.slot = false
  after : g'.pc (g'.slot + 4) = false
  stored : g' = g ∨ g.pc g.slot = false

/-- The current slot is free, and so is the next one, or else the first two free slots are
not the one before and the current one. -/
def HasPlace (g : Gen) : Prop :=
  g.pc g.slot = false ∧ (g.pc (g.slot + 4) = false ∨ ¬ FirstPair g.pc (g.slot - 4))

/-- The current slot is free, and the next one is free or the one before is not. -/
def Gen.freeAhead (g : Gen) : Bool :=
  !g.pc g.slot && (!g.pc (g.slot + 4) || g.pc (g.slot - 4))

theorem hasPlace_of_freeAhead {g : Gen} (h : g.freeAhead = true) : HasPlace g := by
  simp only [Gen.freeAhead, Bool.and_eq_true, Bool.or_eq_true, Bool.not_eq_true'] at h
  refine ⟨h.1, h.2.imp_right fun hbefore hpair => ?_⟩
  exact Bool.false_ne_true (hpair.free.symm.trans hbefore)

section MadeRoom

variable {g g' : Gen} {i : BitVec 32}

/-- The current slot is not the first of the pair, or there would have been room. -/
theorem Jumped.ne_slot (hj : Jumped g i g') : i ≠ g.slot := by
  rintro rfl
  have htrue : false = true :=
    (Gen.hasRoom_ok hj.hasRoom).1.mpr ⟨hj.found.free, hj.found.free4⟩
  exact Bool.false_ne_true htrue

theorem Jumped.slot_eq (hj : Jumped g i g') : g'.slot = i := by
  unfold Gen.slot
  rw [hj.cur]
  exact BitVec.add_sub_cancel i memTextStart

theorem Jumped.place_made_iff (hj : Jumped g i g') :
    MadeRoom g g' ↔ g.pc g.slot = false ∧ i + 4 ≠ g.slot := by
  constructor
  · intro h
    refine ⟨?_, fun heq => ?_⟩
    · rcases h.stored with heq | hfree
      · exact absurd (hj.slot_eq.symm.trans (congrArg Gen.slot heq)) hj.ne_slot
      · exact hfree
    · have hafter := h.after
      rw [hj.slot_eq, heq, hj.pc, Function.update_self] at hafter
      exact Bool.noConfusion hafter
  · rintro ⟨hfree, hne⟩
    refine ⟨?_, ?_, .inr hfree⟩
    · rw [hj.slot_eq, hj.pc, Function.update_of_ne hj.ne_slot]
      exact hj.found.free
    · rw [hj.slot_eq, hj.pc, Function.update_of_ne hne]
      exact hj.found.free4

/-- The pair that a jump takes is the first one. -/
theorem Jumped.hasPlace_iff (hj : Jumped g i g') :
    HasPlace g ↔ g.pc g.slot = false ∧ i + 4 ≠ g.slot := by
  have hpair : FirstPair g.pc (g.slot - 4) ↔ i + 4 = g.slot := by
    constructor
    · intro h
      rw [hj.found.unique h]
      exact BitVec.sub_add_cancel _ _
    · intro h
      rw [← h, BitVec.add_sub_cancel]
      exact hj.found
  unfold HasPlace
  rw [hpair]
  refine and_congr_right fun hfree => or_iff_right fun hfree4 => ?_
  exact Bool.false_ne_true ((Gen.hasRoom_ok hj.hasRoom).1.mpr ⟨hfree, hfree4⟩)

/-- `make_room` does what it is for exactly in the states with a place. -/
theorem makeRoom_madeRoom_iff (hb : Between g) (h : g.makeRoom = .ok g') :
    MadeRoom g g' ↔ HasPlace g := by
  obtain ⟨-, ⟨hroom, rfl⟩ | ⟨i, hj⟩⟩ := makeRoom_cases hb h
  · obtain ⟨hfree, hfree4⟩ := (Gen.hasRoom_ok hroom).1.mp rfl
    exact iff_of_true ⟨hfree, hfree4, .inl rfl⟩ ⟨hfree, .inl hfree4⟩
  · rw [hj.place_made_iff, hj.hasPlace_iff]

/-! ## What stays -/

/-- The words of the slots that are taken. -/
structure WordsKept (g g' : Gen) : Prop where
  used : ∀ i, g.pc i = true → g'.pc i = true
  word : ∀ i, g.pc i = true → g'.instr i = g.instr i

theorem WordsKept.refl (g : Gen) : WordsKept g g := ⟨fun _ h => h, fun _ _ => rfl⟩

theorem WordsKept.trans {g₁ : Gen} (h : WordsKept g g₁) (h' : WordsKept g₁ g') :
    WordsKept g g' where
  used i hi := h'.used i (h.used i hi)
  word i hi := (h'.word i (h.used i hi)).trans (h.word i hi)

/-- A word in a free slot. -/
theorem wordsKept_of_update {slot w : BitVec 32} (hfree : g.pc slot = false)
    (hpc : g'.pc = Function.update g.pc slot true)
    (hinstr : g'.instr = Function.update g.instr slot w) : WordsKept g g' := by
  have hne : ∀ i, g.pc i = true → i ≠ slot := by
    rintro i hi rfl
    exact Bool.false_ne_true (hfree.symm.trans hi)
  constructor
  · intro i hi
    rw [hpc, Function.update_of_ne (hne i hi)]
    exact hi
  · intro i hi
    rw [hinstr, Function.update_of_ne (hne i hi)]

theorem makeRoom_wordsKept (hb : Between g) (hplace : HasPlace g)
    (h : g.makeRoom = .ok g') : WordsKept g g' := by
  obtain ⟨-, ⟨-, rfl⟩ | ⟨i, hj⟩⟩ := makeRoom_cases hb h
  · exact .refl g'
  · obtain ⟨w, hinstr⟩ := hj.instr
    exact wordsKept_of_update hplace.1 hj.pc hinstr

/-- A request that finds a place overwrites nothing. -/
theorem request_wordsKept (hb : Between g) (hplace : HasPlace g) {t : InstrType}
    (h : g.request t = .ok g') : WordsKept g g' := by
  obtain ⟨-, g₁, w, hroom, -, hp⟩ := request_placed hb h
  have hmade := (makeRoom_madeRoom_iff hb hroom).mpr hplace
  exact (makeRoom_wordsKept hb hplace hroom).trans
    (wordsKept_of_update hmade.current hp.pc hp.instr)

theorem steps_wordsKept (hr : Reachable g) (h : Steps HasPlace g g') : WordsKept g g' := by
  induction h with
  | refl => exact .refl g
  | draw rand _ ih => exact ⟨ih.used, ih.word⟩
  | request hsteps hplace hreq ih =>
      exact ih.trans (request_wordsKept (hr.steps hsteps).between hplace hreq)

end MadeRoom

/-- From any state that requests lead to, `make_room` leaves two free slots and spoils none
exactly when there is a place; and requests that find a place leave all words as they are. -/
theorem madeRoom_iff {g : Gen} (hr : Reachable g) :
    (∀ g', g.makeRoom = .ok g' → (MadeRoom g g' ↔ HasPlace g)) ∧
      ∀ g', Steps HasPlace g g' →
        WordsKept g g' ∧ ∀ g'', g'.makeRoom = .ok g'' → HasPlace g' → MadeRoom g' g'' :=
  ⟨fun _ hroom => makeRoom_madeRoom_iff hr.between hroom,
    fun _ hsteps => ⟨steps_wordsKept hr hsteps, fun _ hroom hplace =>
      (makeRoom_madeRoom_iff (hr.steps hsteps).between hroom).mpr hplace⟩⟩

/-- An `ADD`, a branch over a slot, and a branch back to the slot between them: `make_room`
jumps away from there, and so does the next request. -/
theorem madeRoom_iff_back : ∃ g g₁ g₂,
    (init false [3, 1, 2, 3, 0, 0, 0, 2, 0, 0, 0, 2047, 0, 3, 1, 2, 3]).requests [.r, .b, .b] =
        .ok g ∧
      g.makeRoom = .ok g₁ ∧ g₁.slot ≠ g.slot ∧ MadeRoom g g₁ ∧
      g.request .r = .ok g₂ ∧ WordsKept g g₂ := by
  have hcheck : ((init false [3, 1, 2, 3, 0, 0, 0, 2, 0, 0, 0, 2047, 0, 3, 1, 2, 3]).requests
      [.r, .b, .b]).toOption.any (fun g =>
        g.freeAhead &&
          g.makeRoom.toOption.any (fun g₁ => g₁.slot != g.slot) &&
            (g.request .r).toOption.any fun _ => true) = true := by
    decide +kernel
  obtain ⟨g, hg, hcheck⟩ := exists_of_any hcheck
  rw [Bool.and_eq_true, Bool.and_eq_true] at hcheck
  obtain ⟨⟨hslots, hroom⟩, hreq⟩ := hcheck
  obtain ⟨g₁, hroom, hne⟩ := exists_of_any hroom
  obtain ⟨g₂, hreq, -⟩ := exists_of_any hreq
  have hplace := hasPlace_of_freeAhead hslots
  have h := madeRoom_iff ⟨false, _, Steps.refl.requests hg⟩
  exact ⟨g, g₁, g₂, hg, hroom, bne_iff_ne.mp hne, (h.1 g₁ hroom).mpr hplace, hreq,
    (h.2 g₂ (Steps.refl.request hplace hreq)).1⟩

/-- An `ADD`, a branch to itself, and a jump that overwrites it. -/
theorem makeRoom_overwrites :
    ¬ ∀ g g' : Gen, Reachable g → g.makeRoom = .ok g' → MadeRoom g g' := by
  intro hall
  have hrun : (do
      let g₁ ← (init false [3, 1, 2, 3, 0, 0, 0, 0, 0]).request .r
      let g₂ ← g₁.request .b
      let g₃ ← g₂.makeRoom
      return (g₂.pc g₂.slot && g₃.slot != g₂.slot)).toOption.any id = true := by
    decide +kernel
  obtain ⟨b, hb, hslots⟩ := exists_of_any hrun
  obtain ⟨g₁, h₁, hb⟩ := bind_ok hb
  obtain ⟨g₂, h₂, hb⟩ := bind_ok hb
  obtain ⟨g₃, h₃, hb⟩ := bind_ok hb
  obtain rfl := Except.ok.inj hb
  rw [id, Bool.and_eq_true, bne_iff_ne] at hslots
  have hreach : Reachable g₂ := ⟨false, _, (Steps.refl.request trivial h₁).request trivial h₂⟩
  rcases (hall g₂ g₃ hreach h₃).stored with heq | hfree
  · exact hslots.2 (congrArg Gen.slot heq)
  · exact Bool.false_ne_true (hfree.symm.trans hslots.1)

end SimpleCpu.RiscV.HexGen
