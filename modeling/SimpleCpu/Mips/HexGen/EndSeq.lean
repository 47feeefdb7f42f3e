import SimpleCpu.Mips.HexGen.Reachable

/-!
# The end sequence

`gen_end_seq` records a word before it executes it, so `prev_pc` stays behind after the
first word, and a jump that the second `make_room` inserts is recorded over that word.
`recorded_iff_endRoom`: the sequence is recorded where it is executed exactly when there is room
for all of it.
-/

namespace SimpleCpu.Mips.HexGen

open SimpleCpu.HexGen SimpleCpu.Iss SimpleCpu.Mips.Iss SimpleCpu.Mips.Isa

/-- What the end sequence executes is recorded, at the slots where it is executed. -/
def Recorded (g g' : Gen) : Prop :=
  ∀ st ∈ g'.trace.drop g.trace.length, g'.pc st.pc = true ∧ g'.instr st.pc = st.word

/-- The slot that `make_room` leads to. -/
def roomSlot (g : Gen) : BitVec 32 :=
  match g.hasRoom, g.pc.find Gen.roomAddrs with
  | .ok false, .ok (some i) => i
  | _, _ => g.cur

/-- There is room for the whole sequence behind that slot, and a jump to it is not in the
way. -/
def EndRoom (g : Gen) : Prop :=
  (g.hasRoom = .ok true ∨
      roomSlot g ≠ g.cur ∧ roomSlot g + 4 ≠ g.cur ∧ roomSlot g + 4 + 4 ≠ g.cur) ∧
    g.pc (roomSlot g + 4) = false ∧ g.pc (roomSlot g + 4 + 4) = false ∧ roomSlot g + 4 ≠ 0xFFC

instance (g g' : Gen) : Decidable (Recorded g g') :=
  inferInstanceAs (Decidable (∀ st ∈ _, _))

instance (g : Gen) : Decidable (EndRoom g) := inferInstanceAs (Decidable (_ ∧ _))

section EndSeq

variable {g g' g₁ g₂ g₃ : Gen} {w slot : BitVec 32}

theorem Placed.trace_eq (hp : Placed g w slot g') (hcur : g.cur.toNat < 0x1FFF) :
    g'.trace = g.trace ++ [{ pc := g.cur, word := w, regs := g'.sim.current.regs }] := by
  rw [hp.trace, Placed.fetch hcur]

/-- The two words and the calls of `make_room` in front of them. -/
structure EndRun (g g₁ g₂ g₃ g' : Gen) : Prop where
  room₁ : g.makeRoom = .ok g₁
  addi : Placed g₁ Gen.addiOpcode g₁.cur g₂
  prev : g₂.prevPc = g₁.cur
  cur : g₂.cur = g₁.cur + 4
  settled : Settled g₂
  room₂ : g₂.makeRoom = .ok g₃
  syscall : Placed g₃ Gen.syscallOpcode g₃.cur g'

theorem genEndSeq_ok (hb : Between g) (h : g.genEndSeq = .ok g') :
    ∃ g₁ g₂ g₃, EndRun g g₁ g₂ g₃ g' := by
  obtain ⟨g₂, haddi, hsyscall⟩ := bind_ok h
  obtain ⟨g₁, hroom₁, hp, hprev, -⟩ := Gen.endAddi_ok haddi
  obtain ⟨g₃, hroom₂, hp'⟩ := Gen.endSyscall_ok hsyscall
  have hb₁ := hb.makeRoom hroom₁
  have hcur₁ := makeRoom_cur_lt hb.toSettled hroom₁
  refine ⟨g₁, g₂, g₃, hroom₁, hp, hprev,
    hp.cur_eq hb₁.next (by omega) decodeInstr_addiOpcode, ⟨hp.next, fun k hk => ?_⟩, hroom₂, hp'⟩
  rw [hp.pc] at hk
  exact used_update hcur₁ hb₁.used k hk

/-- `roomSlot` is where the first call leads. -/
theorem makeRoom_roomSlot (hs : Settled g) (h : g.makeRoom = .ok g₁) : g₁.cur = roomSlot g := by
  unfold roomSlot
  obtain ⟨-, ⟨hroom, rfl⟩ | ⟨i, hj⟩⟩ := makeRoom_cases hs h
  · rw [hroom]
  · rw [hj.hasRoom, hj.found, hj.cur]

theorem add_four_ne (x : BitVec 32) : x + 4 ≠ x ∧ x + 4 + 4 ≠ x := by
  constructor <;> bv_omega

/-- The second call finds room at once exactly when the two slots behind are free. -/
theorem EndRun.hasRoom_iff (hrun : EndRun g g₁ g₂ g₃ g') :
    g₂.hasRoom = .ok true ↔
      g₁.pc (g₁.cur + 4) = false ∧ g₁.pc (g₁.cur + 4 + 4) = false ∧ g₁.cur + 4 ≠ 0xFFC := by
  obtain ⟨hne, hne'⟩ := add_four_ne g₁.cur
  obtain ⟨b, hb, -⟩ := bind_ok hrun.room₂
  have hiff := (Gen.hasRoom_ok hb).1
  rw [hrun.cur, hrun.addi.pc, Function.update_of_ne hne, Function.update_of_ne hne'] at hiff
  rw [← hiff, hb, Except.ok.injEq]

/-- There is room for the sequence exactly when the second call finds room at once, and the
first one does not jump to its own slot. -/
theorem endRoom_iff (hb : Between g) (hrun : EndRun g g₁ g₂ g₃ g') :
    EndRoom g ↔ g₂.hasRoom = .ok true ∧ (g.hasRoom = .ok true ∨ roomSlot g ≠ g.cur) := by
  have hslot := makeRoom_roomSlot hb.toSettled hrun.room₁
  unfold EndRoom
  rw [hrun.hasRoom_iff, hslot]
  obtain ⟨-, ⟨hroom, rfl⟩ | ⟨i, hj⟩⟩ := makeRoom_cases hb.toSettled hrun.room₁
  · simp [hroom]
  · have hpc : ∀ x, g₁.pc x = false ↔ x ≠ g.cur ∧ g.pc x = false := by
      intro x
      rw [hj.placed.pc, hb.prev]
      by_cases hx : x = g.cur
      · simp [hx]
      · simp [hx]
    rw [hpc, hpc, hj.hasRoom]
    simp
    tauto

/-- What has been placed last is recorded at its slot. -/
theorem Placed.recorded (hp : Placed g w slot g') : g'.pc slot = true ∧ g'.instr slot = w := by
  rw [hp.pc, hp.instr, Function.update_self, Function.update_self]
  exact ⟨rfl, rfl⟩

/-- The other slots keep their words. -/
theorem Placed.frame (hp : Placed g w slot g') {x : BitVec 32} (hx : x ≠ slot) :
    g'.pc x = g.pc x ∧ g'.instr x = g.instr x := by
  rw [hp.pc, hp.instr, Function.update_of_ne hx, Function.update_of_ne hx]
  exact ⟨rfl, rfl⟩

theorem EndRun.bounds (hb : Between g) (hrun : EndRun g g₁ g₂ g₃ g') :
    g.cur.toNat < 0x1FFC ∧ g₁.cur.toNat < 0x1FFC ∧ g₂.cur.toNat < 0x1FFC ∧
      g₃.cur.toNat < 0x1FFC :=
  ⟨(makeRoom_cases hb.toSettled hrun.room₁).1, makeRoom_cur_lt hb.toSettled hrun.room₁,
    (makeRoom_cases hrun.settled hrun.room₂).1, makeRoom_cur_lt hrun.settled hrun.room₂⟩

/-- No jump is the word that sets register 2. -/
theorem genJ_ne_addiOpcode {i : BitVec 32} (hi : i.toNat < 0x1FFC) (h4 : i.toNat % 4 = 0) :
    Gen.genJ i ≠ Gen.addiOpcode := by
  intro h
  obtain ⟨t, hdecode, -⟩ := decodeInstr_genJ (by omega) h4
  rw [h, decodeInstr_addiOpcode] at hdecode
  exact absurd hdecode nofun

/-- Where the trace is a sequence of parts, each part has to be recorded. -/
theorem recorded_append {steps : List Step} (h : g'.trace = g.trace ++ steps) :
    Recorded g g' ↔ ∀ st ∈ steps, g'.pc st.pc = true ∧ g'.instr st.pc = st.word := by
  unfold Recorded
  rw [h, List.drop_left]

section Room

variable (hrun : EndRun g g₁ g₂ g₃ g') (hroom : g₂.hasRoom = .ok true)

include hrun hroom

theorem EndRun.second : g₃ = g₂ := by
  rcases Gen.makeRoom_ok hrun.room₂ with ⟨-, h⟩ | ⟨i, h, -⟩
  · exact h
  · rw [hroom] at h
    exact absurd h nofun

/-- The words are recorded behind each other, and the other slots keep theirs. -/
theorem EndRun.recorded_addi : g'.pc g₁.cur = true ∧ g'.instr g₁.cur = Gen.addiOpcode := by
  have hne : g₁.cur ≠ g₃.cur := by
    rw [hrun.second hroom, hrun.cur]
    exact (add_four_ne g₁.cur).1.symm
  have hframe := hrun.syscall.frame hne
  rw [hframe.1, hframe.2, hrun.second hroom]
  exact hrun.addi.recorded

theorem EndRun.frame {x : BitVec 32} (hx : x ≠ g₁.cur) (hx' : x ≠ g₂.cur) :
    g'.pc x = g₁.pc x ∧ g'.instr x = g₁.instr x := by
  rw [← hrun.second hroom] at hx'
  have hframe := hrun.syscall.frame hx'
  rw [hframe.1, hframe.2, hrun.second hroom]
  exact hrun.addi.frame hx

/-- A jump in front of them is recorded where it is executed, unless it is a jump to its own
slot. -/
theorem EndRun.recorded_jump (hb : Between g) {i : BitVec 32} (hj : Jumped g i g₁) :
    (g'.pc g.cur = true ∧ g'.instr g.cur = Gen.genJ i) ↔ g.cur ≠ g₁.cur := by
  constructor
  · rintro ⟨-, hinstr⟩ heq
    rw [heq, (hrun.recorded_addi hroom).2] at hinstr
    exact genJ_ne_addiOpcode hj.bound hj.aligned hinstr.symm
  · intro hne
    have hne₂ : g.cur ≠ g₂.cur := by
      intro heq
      have hfree := (hrun.hasRoom_iff.mp hroom).1
      rw [← hrun.cur, ← heq, hj.placed.pc, hb.prev, Function.update_self] at hfree
      exact absurd hfree nofun
    have hframe := hrun.frame hroom hne hne₂
    rw [hframe.1, hframe.2, ← hb.prev]
    exact hj.placed.recorded

/-- With room for the second word, only a jump to its own slot can get lost. -/
theorem recorded_iff_of_room (hb : Between g) :
    Recorded g g' ↔ g.hasRoom = .ok true ∨ roomSlot g ≠ g.cur := by
  obtain ⟨hcur, hcur₁, hcur₂, -⟩ := hrun.bounds hb
  have haddi := hrun.recorded_addi hroom
  have hsyscall := hrun.syscall
  rw [hrun.second hroom] at hsyscall
  have hlast := hsyscall.recorded
  have htrace := hsyscall.trace_eq (by omega)
  rw [hrun.addi.trace_eq (by omega)] at htrace
  rw [← makeRoom_roomSlot hb.toSettled hrun.room₁]
  obtain ⟨-, ⟨hfirst, rfl⟩ | ⟨i, hj⟩⟩ := makeRoom_cases hb.toSettled hrun.room₁
  · rw [List.append_assoc] at htrace
    rw [recorded_append htrace]
    simp [haddi, hlast, hfirst]
  · have hjump := hrun.recorded_jump hroom hb hj
    rw [hj.placed.trace_eq (by omega), List.append_assoc, List.append_assoc] at htrace
    rw [recorded_append htrace, hj.hasRoom, ne_comm, ← hjump]
    simp [haddi, hlast]

end Room

theorem makeRoom_trace (hs : Settled g) (h : g.makeRoom = .ok g₁) :
    ∃ steps, g₁.trace = g.trace ++ steps := by
  obtain ⟨hcur, ⟨-, rfl⟩ | ⟨i, hj⟩⟩ := makeRoom_cases hs h
  · exact ⟨[], (List.append_nil _).symm⟩
  · exact ⟨_, hj.placed.trace_eq (by omega)⟩

/-- A jump in front of the second word is recorded over the first one. -/
theorem not_recorded_of_jump (hb : Between g) (hrun : EndRun g g₁ g₂ g₃ g') {i : BitVec 32}
    (hj : Jumped g₂ i g₃) : ¬ Recorded g g' := by
  obtain ⟨-, hcur₁, hcur₂, hcur₃⟩ := hrun.bounds hb
  have hused : g₂.pc g₁.cur = true := hrun.addi.recorded.1
  have hne : g₁.cur ≠ g₃.cur := by
    intro heq
    have hfree := hj.free
    rw [← hj.cur, ← heq, hused] at hfree
    exact absurd hfree nofun
  have hinstr : g'.instr g₁.cur = Gen.genJ i := by
    rw [(hrun.syscall.frame hne).2, ← hrun.prev]
    exact hj.placed.recorded.2
  obtain ⟨steps, hsteps⟩ := makeRoom_trace hb.toSettled hrun.room₁
  have htrace := hrun.syscall.trace_eq (by omega)
  rw [hj.placed.trace_eq (by omega), hrun.addi.trace_eq (by omega), hsteps] at htrace
  simp only [List.append_assoc] at htrace
  rw [recorded_append htrace]
  intro h
  have haddi := (h { pc := g₁.cur, word := Gen.addiOpcode, regs := g₂.sim.current.regs }
    (by simp)).2
  exact genJ_ne_addiOpcode hj.bound hj.aligned (hinstr.symm.trans haddi)

/-- The sequence is recorded where it is executed exactly when there is room for it. -/
theorem recorded_iff_endRoom (hb : Between g) (h : g.genEndSeq = .ok g') :
    Recorded g g' ↔ EndRoom g := by
  obtain ⟨g₁, g₂, g₃, hrun⟩ := genEndSeq_ok hb h
  rw [endRoom_iff hb hrun]
  obtain ⟨-, ⟨hroom, -⟩ | ⟨i, hj⟩⟩ := makeRoom_cases hrun.settled hrun.room₂
  · simp [recorded_iff_of_room hrun hroom hb, hroom]
  · simp [not_recorded_of_jump hb hrun hj, hj.hasRoom]

end EndSeq

end SimpleCpu.Mips.HexGen
