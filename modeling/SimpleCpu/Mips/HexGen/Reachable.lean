import SimpleCpu.Mips.HexGen.Steps

/-!
# States of the MIPS program generator

`Run` are the states that requests lead to, with any numbers drawn, and `Between` is what
holds in all of them: `prev_pc` is the program counter, so a word is recorded where it is
executed (`request_placed`), and the last slot is never taken.
-/

namespace SimpleCpu.Mips.HexGen

open SimpleCpu.HexGen SimpleCpu.Iss SimpleCpu.Mips.Iss SimpleCpu.Mips.Isa

/-! ## Executing what is placed -/

theorem find_text {a : BitVec 32} (h : a.toNat < 0x1FFF) :
    findRegion a memRegions 0 = some (0, 0) := by
  refine findRegion_of_contains ?_ _ _
  rw [MemRegion.contains_iff (by decide)]
  exact ⟨Nat.zero_le _, h⟩

namespace Placed

variable {g g' : Gen} {w slot : BitVec 32}

theorem fetch (hcur : g.cur.toNat < 0x1FFF) (w : BitVec 32) :
    (g.sim.memWrite g.cur w).memRead g.cur = w :=
  memRead32_memWrite32 (find_text hcur)

theorem next (hp : Placed g w slot g') : g'.sim.next = g'.sim.current := by
  rw [hp.sim]
  rfl

/-- The simulator follows the instruction that the word encodes. -/
theorem cur_eq (hp : Placed g w slot g') (hs : g.sim.next = g.sim.current)
    (hcur : g.cur.toNat < 0x1FFF) {x : Instr} (hx : decodeInstr w = some x) :
    g'.cur = x.nextPc g.cur g.sim.current.regs := by
  have hread := fetch hcur w
  have hsim := hp.sim
  have hs' : (g.sim.memWrite g.cur w).next = (g.sim.memWrite g.cur w).current := hs
  have hcurrent : (g.sim.memWrite g.cur w).current = g.sim.current := rfl
  generalize g.sim.memWrite g.cur w = s at hread hsim hs' hcurrent
  have hx' : decodeInstr (s.memRead s.current.pc) = some x := by
    rw [hcurrent]
    exact (congrArg decodeInstr hread).trans hx
  show g'.sim.current.pc = x.nextPc g.sim.current.pc g.sim.current.regs
  rw [hsim, cycle_eq hs' hx', ← hcurrent]
  rfl

end Placed

/-! ## Making room -/

/-- What holds whenever `make_room` is called. -/
structure Settled (g : Gen) : Prop where
  next : g.sim.next = g.sim.current
  used : ∀ i, g.pc i = true → i.toNat < 0x1FFC

/-- A jump of `make_room`, from the program counter to two free slots.  It is recorded at
`prev_pc`. -/
structure Jumped (g : Gen) (i : BitVec 32) (g' : Gen) : Prop where
  hasRoom : g.hasRoom = .ok false
  found : g.pc.find Gen.roomAddrs = .ok (some i)
  placed : Placed g (Gen.genJ i) g.prevPc g'
  cur : g'.cur = i
  prev : g'.prevPc = g'.cur
  instrGen : g'.instrGen = g.instrGen
  free : g.pc i = false
  free4 : g.pc (i + 4) = false
  aligned : i.toNat % 4 = 0
  bound : i.toNat < 0x1FFC

section Room

variable {g g₁ : Gen}

/-- A slot that can be looked at together with the one after it is below the last. -/
theorem toNat_lt_of_add_four {i : BitVec 32} (hi : i < imemSize) (hi4 : i + 4 < imemSize) :
    i.toNat < 0x1FFC := by
  have hlt : i.toNat < 0x2000 := hi
  have hlt4 : (i + 4).toNat < 0x2000 := hi4
  rw [BitVec.toNat_add] at hlt4
  have hfour : (4 : BitVec 32).toNat = 4 := rfl
  omega

/-- `make_room` does not look past the array, so the program counter is below the last
slot. -/
theorem Settled.cur_lt (hs : Settled g) {b : Bool} (h : g.hasRoom = .ok b) :
    g.cur.toNat < 0x1FFC := by
  obtain ⟨-, hlt, hlt4⟩ := Gen.hasRoom_ok h
  cases hpc : g.pc g.cur with
  | true => exact hs.used _ hpc
  | false => exact toNat_lt_of_add_four hlt (hlt4 hpc)

theorem mem_roomAddrs {i : BitVec 32} (h : i ∈ Gen.roomAddrs) :
    i.toNat % 4 = 0 ∧ 4 ≤ i.toNat ∧ i.toNat ≤ 0x1FFC := by
  obtain ⟨k, hk, rfl⟩ := List.mem_map.mp h
  have hk' := List.mem_range.mp hk
  rw [BitVec.toNat_ofNat]
  omega

/-- `make_room` leaves the state alone, or it jumps. -/
theorem makeRoom_cases (hs : Settled g) (h : g.makeRoom = .ok g₁) :
    g.cur.toNat < 0x1FFC ∧ ((g.hasRoom = .ok true ∧ g₁ = g) ∨ ∃ i, Jumped g i g₁) := by
  rcases Gen.makeRoom_ok h with ⟨hroom, rfl⟩ | ⟨i, hroom, hfound, hp, hprev, hgen⟩
  · exact ⟨hs.cur_lt hroom, Or.inl ⟨hroom, rfl⟩⟩
  · have hcur := hs.cur_lt hroom
    obtain ⟨hmem, hfree, hfree4, hi, hi4⟩ := Slots.find_ok hfound
    obtain ⟨h4, -, -⟩ := mem_roomAddrs hmem
    obtain ⟨t, hdecode, ht⟩ := decodeInstr_genJ hi h4
    have hcur' : g₁.cur = i := by
      rw [hp.cur_eq hs.next (by omega) hdecode]
      apply BitVec.eq_of_toNat_eq
      rw [← ht]
      exact jumpTarget_eq (by omega) t
    exact ⟨hcur, Or.inr ⟨i, hroom, hfound, hp, hcur', hprev, hgen, hfree, hfree4, h4,
      toNat_lt_of_add_four hi hi4⟩⟩

/-- Where `make_room` leaves the program counter, there is a slot below the last. -/
theorem makeRoom_cur_lt (hs : Settled g) (h : g.makeRoom = .ok g₁) : g₁.cur.toNat < 0x1FFC := by
  obtain ⟨hcur, ⟨-, rfl⟩ | ⟨i, hj⟩⟩ := makeRoom_cases hs h
  · exact hcur
  · rw [hj.cur]
    exact hj.bound

/-- One more slot is taken. -/
theorem used_update {slot : BitVec 32} (hslot : slot.toNat < 0x1FFC)
    (hused : ∀ i, g.pc i = true → i.toNat < 0x1FFC) (i : BitVec 32)
    (h : Function.update g.pc slot true i = true) : i.toNat < 0x1FFC := by
  by_cases hi : i = slot
  · rw [hi]
    exact hslot
  · rw [Function.update_of_ne hi] at h
    exact hused i h

end Room

/-! ## Between requests -/

/-- What holds between two requests. -/
structure Between (g : Gen) : Prop extends Settled g where
  prev : g.prevPc = g.cur
  first : g.instrGen = 0 → g.cur = 0 ∧ ∀ i, g.pc i = false

theorem between_init (rand : List Nat) : Between (init rand) where
  next := rfl
  used _ h := absurd h nofun
  prev := rfl
  first _ := ⟨rfl, fun _ => rfl⟩

section Between

variable {g g' g₁ : Gen} {w : BitVec 32}

/-- The slot of the next word is the program counter. -/
theorem Between.slot (hb : Between g) : (if g.instrGen = 0 then 0 else g.prevPc) = g.cur := by
  split
  next h => exact (hb.first h).1.symm
  next => exact hb.prev

/-- Drawing a number changes nothing. -/
theorem Between.withRand (hb : Between g) (rand : List Nat) : Between { g with rand := rand } :=
  ⟨⟨hb.next, hb.used⟩, hb.prev, hb.first⟩

/-- A jump between requests is recorded where it is executed. -/
theorem Between.makeRoom (hb : Between g) (h : g.makeRoom = .ok g₁) : Between g₁ := by
  obtain ⟨hcur, ⟨-, rfl⟩ | ⟨i, hj⟩⟩ := makeRoom_cases hb.toSettled h
  · exact hb
  · refine ⟨⟨hj.placed.next, fun k hk => ?_⟩, hj.prev, fun h0 => ?_⟩
    · rw [hj.placed.pc] at hk
      exact used_update (by rw [hb.prev]; exact hcur) hb.used k hk
    · rw [hj.instrGen] at h0
      obtain ⟨hc, hall⟩ := hb.first h0
      have htrue : false = true := (Gen.hasRoom_ok hj.hasRoom).1.mpr
        ⟨hall _, hall _, by rw [hc]; decide⟩
      exact absurd htrue nofun

/-- A request places its word at the program counter that `make_room` leaves. -/
theorem request_placed (hb : Between g) {r : Request} (h : g.request r = .ok g') :
    Between g' ∧ ∃ g₁ w, g.makeRoom = .ok g₁ ∧ Between g₁ ∧ g₁.cur.toNat < 0x1FFC ∧
      Chosen g₁ r w ∧ Placed g₁ w g₁.cur g' := by
  obtain ⟨g₁, w, hroom, hw, hp, hprev, hgen⟩ := Gen.request_ok h
  have hb₁ := hb.makeRoom hroom
  have hcur₁ := makeRoom_cur_lt hb.toSettled hroom
  rw [hb₁.slot] at hp
  refine ⟨⟨⟨hp.next, fun k hk => ?_⟩, hprev, fun h0 => by omega⟩, g₁, w, hroom, hb₁, hcur₁, hw, hp⟩
  rw [hp.pc] at hk
  exact used_update hcur₁ hb₁.used k hk

end Between

/-! ## Words that are drawn -/

/-- The request leaves its arguments to `rand()`. -/
def Request.isDrawn : Request → Bool
  | .r args => args.isNone
  | .i args => args.isNone
  | .j => true

/-- A branch or a jump that has been accepted goes to a free slot well inside the text. -/
structure Target (g : Gen) (a : BitVec 32) : Prop where
  pos : 0 < a.toNat
  le : a.toNat ≤ 0x1F00
  free : g.pc a = false
  aligned : g.cur.toNat % 4 = 0 → a.toNat % 4 = 0

section Drawn

variable {g g' : Gen} {w : BitVec 32}

theorem isLsOpcode_of_isBrnOpcode {opcode : BitVec 32} (h : isBrnOpcode opcode = true) :
    isLsOpcode opcode = false := by
  unfold isBrnOpcode at h
  rcases of_decide_eq_true h with rfl | rfl | rfl | rfl | rfl <;> rfl

theorem target_of_branch {opcode imm : BitVec 32} {rs : BitVec 5}
    (hv : g.verdict opcode rs imm = .fine) (hbrn : isBrnOpcode opcode = true) :
    Target g (g.cur + 4 + branchOffset imm) := by
  have hls := isLsOpcode_of_isBrnOpcode hbrn
  have hend : memTextStart + memTextSize - 0xFF = 0x1F00#32 := rfl
  have hcheck : g.checkBrnAddr imm ≠ -1 := by
    unfold Gen.verdict at hv
    rw [hls, hbrn] at hv
    intro h
    simp [h] at hv
  unfold Gen.checkBrnAddr at hcheck
  rw [hend] at hcheck
  dsimp only at hcheck
  split at hcheck
  next h =>
      obtain ⟨hlo, hhi, hfree⟩ := h
      refine ⟨hlo, hhi, hfree, fun h4 => ?_⟩
      have hoff := branchOffset_aligned imm
      have hfour : (4 : BitVec 32).toNat = 4 := rfl
      rw [BitVec.toNat_add, BitVec.toNat_add]
      omega
  next => exact absurd rfl hcheck

theorem target_of_jump {target : BitVec 32} (h : g.checkJAddr (g.jAddr target) = true) :
    Target g (g.jAddr target) := by
  unfold Gen.checkJAddr at h
  simp only [Bool.and_eq_true, Bool.not_eq_true'] at h
  obtain ⟨⟨hlo, hhi⟩, hfree⟩ := h
  have hend : memTextStart + memTextSize - 0xFF = 0x1F00#32 := rfl
  rw [hend, BitVec.slt_iff_toInt_lt] at hhi
  rw [BitVec.slt_iff_toInt_lt] at hlo
  have hzero : memTextStart.toInt = 0 := rfl
  have hlast : (0x1F00#32).toInt = 0x1F00 := rfl
  rw [hzero] at hlo
  rw [hlast] at hhi
  rw [BitVec.toInt_eq_toNat_cond] at hlo hhi
  have hbound := (g.jAddr target).isLt
  refine ⟨?_, ?_, hfree, fun _ => jumpIndex_aligned (g.cur + 4) target⟩
  · split at hlo <;> omega
  · split at hhi <;> omega

/-- After a word that is drawn the simulator goes on, or to an accepted target. -/
theorem drawn_next {r : Request} (hw : Chosen g r w) (hr : r.isDrawn = true)
    (hs : g.sim.next = g.sim.current) (hcur : g.cur.toNat < 0x1FFC)
    (hp : Placed g w g.cur g') : g'.cur = g.cur + 4 ∨ Target g g'.cur := by
  have hnext : ∀ {x}, decodeInstr w = some x → g'.cur = x.nextPc g.cur g.sim.current.regs :=
    fun hx => hp.cur_eq hs (by omega) hx
  cases hw with
  | rGiven a => exact absurd hr Bool.false_ne_true
  | iGiven a => exact absurd hr Bool.false_ne_true
  | rDrawn a hf =>
      obtain ⟨fn, hx⟩ := decodeInstr_drawnR hf
      exact Or.inl (hnext hx)
  | iDrawn a hop himm hv =>
      obtain ⟨ho, hi, hword⟩ := iWord_of_drawn hop (by omega)
      obtain ⟨x, hx, hgo⟩ := decodeInstr_iWord hword (by rw [← ho]; exact hop)
      rcases hgo g.cur g.sim.current.regs with hpc | ⟨hbrn, hpc⟩
      · exact Or.inl ((hnext hx).trans hpc)
      · refine Or.inr ?_
        rw [← ho] at hbrn
        have htarget := target_of_branch hv hbrn
        rw [hi, branchOffset_eq] at htarget
        rw [hnext hx, hpc]
        exact htarget
  | j target ht hcheck =>
      obtain ⟨t, htt, hx⟩ := decodeInstr_drawnJ ht
      refine Or.inr ?_
      have htarget := target_of_jump hcheck
      rw [hnext hx]
      rw [← htt] at htarget
      exact htarget

end Drawn

/-! ## Runs -/

/-- Requests one after the other. -/
def Gen.requests (g : Gen) : List Request → Except Stop Gen
  | [] => .ok g
  | r :: rs => do Gen.requests (← g.request r) rs

/-- The states that requests lead to, where every request satisfies `ok`. -/
inductive Run (ok : Gen → Request → Prop) : Gen → Prop where
  | init (rand : List Nat) : Run ok (init rand)
  | draw {g : Gen} (rand : List Nat) : Run ok g → Run ok { g with rand := rand }
  | request {g g' : Gen} {r : Request} : Run ok g → ok g r → g.request r = .ok g' → Run ok g'

theorem Run.between {ok : Gen → Request → Prop} {g : Gen} (h : Run ok g) : Between g := by
  induction h with
  | init rand => exact between_init rand
  | draw rand _ ih => exact ih.withRand rand
  | request _ _ hr ih => exact (request_placed ih hr).1

end SimpleCpu.Mips.HexGen
