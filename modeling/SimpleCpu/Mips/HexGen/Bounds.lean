import SimpleCpu.Mips.HexGen.Reachable

/-!
# The bounds of the arrays

`make_room` looks one slot ahead, so it looks past `PC` when it gets to the last slot,
0x1FFC, which is always free.  `hexGen_inside_iff`: nothing else uses an index outside the
arrays, and this happens exactly when `make_room` is called at the last slot, or where no
two slots in a row are free.
-/

namespace SimpleCpu.Mips.HexGen

open SimpleCpu.HexGen SimpleCpu.Iss SimpleCpu.Mips.Iss SimpleCpu.Mips.Isa

/-! ## Room -/

/-- `make_room` finds two slots in a row before it gets to the last slot. -/
def RoomInside (g : Gen) : Prop :=
  g.cur ≠ 0x1FFC ∧
    ((g.pc g.cur = false ∧ g.pc (g.cur + 4) = false ∧ g.cur ≠ 0xFFC) ∨
      ∃ i ∈ Gen.roomAddrs, i ≠ 0x1FFC ∧ g.pc i = false ∧ g.pc (i + 4) = false)

/-- In a run of drawn requests, `make_room` is called at a slot. -/
structure Ready (g : Gen) : Prop extends Settled g where
  aligned : g.cur.toNat % 4 = 0
  bound : g.cur.toNat ≤ 0x1FFC
  prev : g.prevPc < imemSize

/-- The addresses of the search, the last one apart. -/
def innerAddrs : List (BitVec 32) := (List.range 2046).map fun k => BitVec.ofNat 32 (4 * k + 4)

theorem roomAddrs_eq : Gen.roomAddrs = innerAddrs ++ [0x1FFC] := by
  unfold Gen.roomAddrs innerAddrs
  rw [List.range_succ, List.map_append]
  rfl

theorem mem_innerAddrs {i : BitVec 32} (h : i ∈ innerAddrs) :
    i < imemSize ∧ i + 4 < imemSize ∧ i ≠ 0x1FFC := by
  obtain ⟨k, hk, rfl⟩ := List.mem_map.mp h
  have hk' := List.mem_range.mp hk
  have hi : (BitVec.ofNat 32 (4 * k + 4)).toNat = 4 * k + 4 := by
    rw [BitVec.toNat_ofNat]
    omega
  have hfour : (4 : BitVec 32).toNat = 4 := rfl
  refine ⟨?_, ?_, fun heq => ?_⟩
  · show (BitVec.ofNat 32 (4 * k + 4)).toNat < 0x2000
    omega
  · show (BitVec.ofNat 32 (4 * k + 4) + 4).toNat < 0x2000
    rw [BitVec.toNat_add]
    omega
  · have hlast := congrArg BitVec.toNat heq
    rw [hi] at hlast
    have : (0x1FFC : BitVec 32).toNat = 0x1FFC := rfl
    omega

theorem Ready.withRand {g : Gen} (hr : Ready g) (rand : List Nat) :
    Ready { g with rand := rand } :=
  ⟨⟨hr.next, hr.used⟩, hr.aligned, hr.bound, hr.prev⟩

section Room

variable {g g' : Gen}

/-- Looking at the last slot looks past the array. -/
theorem not_inside_last (hb : Settled g) : ¬ Inside (g.pc.isFree 0x1FFC) := by
  have hfree : g.pc 0x1FFC = false := by
    cases h : g.pc 0x1FFC with
    | false => rfl
    | true => exact absurd (hb.used _ h) (by decide)
  have herror : g.pc.isFree 0x1FFC = .error (.index 0x2000) := by
    unfold Slots.isFree Slots.read
    rw [hfree]
    rfl
  intro h
  exact h _ herror

theorem updateCpu_inside {pc w : BitVec 32} (h : pc < imemSize) : Inside (g.updateCpu pc w) := by
  unfold Gen.updateCpu
  rw [if_pos h]
  exact inside_ok _

theorem run_inside : Inside g.run := by
  unfold Gen.run
  split
  next => exact inside_exit
  next =>
      split
      next => exact inside_undefined
      next => exact inside_ok _

/-- The search stays inside exactly when it finds something before the last slot. -/
theorem find_inside_iff (hb : Settled g) :
    Inside (g.pc.find Gen.roomAddrs) ↔
      ∃ i ∈ Gen.roomAddrs, i ≠ 0x1FFC ∧ g.pc i = false ∧ g.pc (i + 4) = false := by
  rw [roomAddrs_eq, Slots.find_append fun i hi => ⟨(mem_innerAddrs hi).1, (mem_innerAddrs hi).2.1⟩]
  cases hfind : innerAddrs.find? fun i => !g.pc i && !g.pc (i + 4) with
  | some i =>
      refine ⟨fun _ => ?_, fun _ => inside_ok _⟩
      have hmem := List.mem_of_find?_eq_some hfind
      have hfree := List.find?_some hfind
      rw [Bool.and_eq_true, Bool.not_eq_true', Bool.not_eq_true'] at hfree
      exact ⟨i, List.mem_append_left _ hmem, (mem_innerAddrs hmem).2.2, hfree.1, hfree.2⟩
  | none =>
      constructor
      · intro h
        exact absurd (inside_bind.mp h).1 (not_inside_last hb)
      · rintro ⟨i, hmem, hne, hfree, hfree4⟩
        rcases List.mem_append.mp hmem with hi | hi
        · have hnot := List.find?_eq_none.mp hfind i hi
          rw [hfree, hfree4] at hnot
          exact absurd rfl hnot
        · exact absurd (List.mem_singleton.mp hi) hne

/-- Away from the last slot the first test stays inside. -/
theorem hasRoom_total (hr : Ready g) (hne : g.cur ≠ 0x1FFC) : ∃ b, g.hasRoom = .ok b := by
  have hne' : g.cur.toNat ≠ 0x1FFC := fun h => hne (BitVec.eq_of_toNat_eq h)
  have h4 := hr.aligned
  have hle := hr.bound
  have hfour : (4 : BitVec 32).toNat = 4 := rfl
  have hlt : g.cur < imemSize := by
    show g.cur.toNat < 0x2000
    omega
  have hlt4 : g.cur + 4 < imemSize := by
    show (g.cur + 4).toNat < 0x2000
    rw [BitVec.toNat_add]
    omega
  unfold Gen.hasRoom
  rw [Slots.isFree_eq hlt hlt4]
  exact ⟨_, rfl⟩

theorem hasRoom_inside_iff (hr : Ready g) : Inside g.hasRoom ↔ g.cur ≠ 0x1FFC := by
  constructor
  · intro h hcur
    have hfree := (inside_bind.mp h).1
    rw [hcur] at hfree
    exact not_inside_last hr.toSettled hfree
  · intro hne
    obtain ⟨b, hb⟩ := hasRoom_total hr hne
    rw [hb]
    exact inside_ok b

/-- `make_room` stays inside the arrays exactly when it finds room before the last slot. -/
theorem makeRoom_inside_iff (hr : Ready g) : Inside g.makeRoom ↔ RoomInside g := by
  unfold Gen.makeRoom
  rw [inside_bind, hasRoom_inside_iff hr]
  constructor
  · rintro ⟨hne, hrest⟩
    refine ⟨hne, ?_⟩
    obtain ⟨b, hroom⟩ := hasRoom_total hr hne
    have hb := (Gen.hasRoom_ok hroom).1
    cases b with
    | true => exact Or.inl (hb.mp rfl)
    | false =>
        have h := hrest false hroom
        exact Or.inr ((find_inside_iff hr.toSettled).mp (inside_bind.mp h).1)
  · rintro ⟨hne, hfree⟩
    refine ⟨hne, fun b hroom => ?_⟩
    cases b with
    | true => exact inside_ok _
    | false =>
        have hb := (Gen.hasRoom_ok hroom).1
        have hfound : ∃ i ∈ Gen.roomAddrs, i ≠ 0x1FFC ∧ g.pc i = false ∧ g.pc (i + 4) = false := by
          rcases hfree with hhere | hfound
          · exact absurd (hb.mpr hhere) nofun
          · exact hfound
        refine inside_bind.mpr ⟨(find_inside_iff hr.toSettled).mpr hfound, fun o ho => ?_⟩
        cases o with
        | none => exact inside_exit
        | some i =>
            refine inside_bind.mpr ⟨run_inside, fun g₁ hrun => ?_⟩
            obtain ⟨-, rfl⟩ := Gen.run_ok hrun
            exact updateCpu_inside hr.prev

/-- The end of a `gen_` function uses the slot of the word. -/
theorem emit_inside {w : BitVec 32} (h : (if g.instrGen = 0 then 0 else g.prevPc) < imemSize) :
    Inside (g.emit w) := by
  refine inside_bind.mpr ⟨run_inside, fun g₁ hrun => ?_⟩
  obtain ⟨-, rfl⟩ := Gen.run_ok hrun
  exact inside_bind.mpr ⟨updateCpu_inside h, fun _ _ => inside_ok _⟩

theorem drawR_inside (rand : List Nat) : Inside (Gen.drawR rand) := by
  unfold Gen.drawR
  split
  next => exact inside_ok _
  next => exact inside_draws

theorem drawImm_inside (opcode : BitVec 32) (o : Option (BitVec 5)) (rand : List Nat) :
    Inside (g.drawImm opcode o rand) := by
  induction rand generalizing o with
  | nil =>
      unfold Gen.drawImm
      exact inside_draws
  | cons n rand ih =>
      cases o with
      | none => exact ih _
      | some r =>
          unfold Gen.drawImm
          cases g.verdict opcode r (BitVec.ofNat 32 (n % 0xFFFF)) with
          | rs => exact ih _
          | imm => exact ih _
          | fine => exact inside_ok _

theorem drawI_inside (rand : List Nat) : Inside (g.drawI rand) := by
  unfold Gen.drawI
  split
  next => exact inside_bind.mpr ⟨drawImm_inside _ _ _, fun _ _ => inside_ok _⟩
  next => exact inside_draws

theorem drawTarget_inside (rand : List Nat) : Inside (g.drawTarget rand) := by
  induction rand with
  | nil => exact inside_draws
  | cons n rand ih =>
      unfold Gen.drawTarget
      dsimp only
      split
      next => exact ih
      next =>
          split
          next => exact ih
          next => exact inside_ok _

theorem recordAddr_inside (a : IArgs) : Inside (g.recordAddr a) := by
  unfold Gen.recordAddr
  repeat' split
  all_goals first
    | exact inside_ok _
    | exact inside_undefined

/-- Only `make_room` can leave the arrays. -/
theorem request_inside_iff (hr : Ready g) (hb : Between g) {r : Request}
    (hdrawn : r.isDrawn = true) : Inside (g.request r) ↔ RoomInside g := by
  unfold Gen.request
  rw [inside_bind, makeRoom_inside_iff hr]
  refine ⟨fun h => h.1, fun h => ⟨h, fun g₁ hroom => ?_⟩⟩
  have hslot : (if g₁.instrGen = 0 then 0 else g₁.prevPc) < imemSize := by
    rw [(hb.makeRoom hroom).slot]
    show g₁.cur.toNat < 0x2000
    have hcur := makeRoom_cur_lt hb.toSettled hroom
    omega
  cases r with
  | r args =>
      cases args with
      | some a => exact absurd hdrawn Bool.false_ne_true
      | none => exact inside_bind.mpr ⟨drawR_inside _, fun p _ => emit_inside hslot⟩
  | i args =>
      cases args with
      | some a => exact absurd hdrawn Bool.false_ne_true
      | none =>
          refine inside_bind.mpr ⟨drawI_inside _, fun p _ => ?_⟩
          refine inside_bind.mpr ⟨recordAddr_inside _, fun g₂ hrecord => ?_⟩
          obtain ⟨ls, br, rfl⟩ := Gen.recordAddr_ok hrecord
          exact emit_inside hslot
  | j =>
      show Inside g₁.genJInstr
      unfold Gen.genJInstr
      split
      next => exact inside_draws
      next =>
          split
          next => exact inside_undefined
          next =>
              exact inside_bind.mpr ⟨drawTarget_inside _, fun p _ => emit_inside hslot⟩

/-- Behind a slot below the last there is another slot. -/
theorem add_four_toNat {x : BitVec 32} (h : x.toNat < 0x1FFC) : (x + 4).toNat = x.toNat + 4 := by
  have hfour : (4 : BitVec 32).toNat = 4 := rfl
  rw [BitVec.toNat_add]
  omega

theorem makeRoom_aligned (hs : Settled g) (h4 : g.cur.toNat % 4 = 0) {g₁ : Gen}
    (h : g.makeRoom = .ok g₁) : g₁.cur.toNat % 4 = 0 := by
  obtain ⟨-, ⟨-, rfl⟩ | ⟨i, hj⟩⟩ := makeRoom_cases hs h
  · exact h4
  · rw [hj.cur]
    exact hj.aligned

/-- A request that is drawn leads to a slot again. -/
theorem request_ready (hr : Ready g) (hb : Between g) {r : Request} (hdrawn : r.isDrawn = true)
    (h : g.request r = .ok g') : Ready g' ∧ Between g' := by
  obtain ⟨hb', g₁, w, hroom, hb₁, hcur₁, hw, hp⟩ := request_placed hb h
  have h4 := makeRoom_aligned hr.toSettled hr.aligned hroom
  have hslot : g'.cur.toNat % 4 = 0 ∧ g'.cur.toNat ≤ 0x1FFC := by
    rcases drawn_next hw hdrawn hb₁.next hcur₁ hp with hcur | htarget
    · rw [hcur, add_four_toNat hcur₁]
      omega
    · have hle := htarget.le
      exact ⟨htarget.aligned h4, by omega⟩
  refine ⟨⟨hb'.toSettled, hslot.1, hslot.2, ?_⟩, hb'⟩
  rw [hb'.prev]
  show g'.cur.toNat < 0x2000
  omega

end Room

/-! ## Runs -/

/-- The states in which `gen_end_seq` calls `make_room`. -/
def endCalls (g : Gen) : List Gen :=
  g :: match g.endAddi with
    | .ok g' => [g']
    | .error _ => []

section Calls

variable (numR numI numJ : Int)

/-- The state in which a round calls `make_room`, if it does. -/
def Loop.calls (l : Loop) : List Gen :=
  match l.gen.rand with
  | [] => []
  | n :: rand => ((l.choice numR numI numJ n).map fun _ => { l.gen with rand := rand }).toList

/-- The states in which `gen_instr_hex` and `gen_end_seq` call `make_room`. -/
def roomCalls : Nat → Loop → List Gen
  | rounds, l =>
      if (l.rGen + l.iGen + l.jGen : Int) < numR + numI + numJ then
        match rounds with
        | 0 => []
        | rounds + 1 =>
            l.calls numR numI numJ ++
              match l.round numR numI numJ with
              | .ok l' => roomCalls rounds l'
              | .error _ => []
      else endCalls l.gen

end Calls

section Runs

variable {g g' : Gen}

/-- After the first half of `gen_end_seq`, `make_room` is called at a slot again. -/
theorem endAddi_ready (hr : Ready g) (hb : Between g) (h : g.endAddi = .ok g') : Ready g' := by
  obtain ⟨g₁, hroom, hp, hprev, -⟩ := Gen.endAddi_ok h
  have hb₁ := hb.makeRoom hroom
  have hcur₁ := makeRoom_cur_lt hb.toSettled hroom
  have h4 := makeRoom_aligned hb.toSettled hr.aligned hroom
  have hcur : g'.cur = g₁.cur + 4 := hp.cur_eq hb₁.next (by omega) decodeInstr_addiOpcode
  refine ⟨⟨hp.next, fun k hk => ?_⟩, ?_, ?_, ?_⟩
  · rw [hp.pc] at hk
    exact used_update hcur₁ hb₁.used k hk
  · rw [hcur, add_four_toNat hcur₁]
    omega
  · rw [hcur, add_four_toNat hcur₁]
    omega
  · rw [hprev]
    show g₁.cur.toNat < 0x2000
    omega

/-- Each half of `gen_end_seq` records its word at the program counter. -/
theorem endAddi_inside_iff (hr : Ready g) : Inside g.endAddi ↔ RoomInside g := by
  unfold Gen.endAddi
  rw [inside_bind, makeRoom_inside_iff hr]
  refine ⟨fun h => h.1, fun h => ⟨h, fun g₁ hroom => ?_⟩⟩
  have hcur₁ := makeRoom_cur_lt hr.toSettled hroom
  refine inside_bind.mpr ⟨updateCpu_inside ?_, fun g₂ _ => ?_⟩
  · show g₁.cur.toNat < 0x2000
    omega
  · exact inside_bind.mpr ⟨run_inside, fun _ _ => inside_ok _⟩

theorem endSyscall_inside_iff (hr : Ready g) : Inside g.endSyscall ↔ RoomInside g := by
  unfold Gen.endSyscall
  rw [inside_bind, makeRoom_inside_iff hr]
  refine ⟨fun h => h.1, fun h => ⟨h, fun g₁ hroom => ?_⟩⟩
  have hcur₁ := makeRoom_cur_lt hr.toSettled hroom
  refine inside_bind.mpr ⟨updateCpu_inside ?_, fun g₂ _ => run_inside⟩
  show g₁.cur.toNat < 0x2000
  omega

theorem genEndSeq_inside_iff (hr : Ready g) (hb : Between g) :
    Inside g.genEndSeq ↔ ∀ g' ∈ endCalls g, RoomInside g' := by
  unfold Gen.genEndSeq endCalls
  rw [inside_bind, endAddi_inside_iff hr]
  cases hend : g.endAddi with
  | error e => simp
  | ok g' =>
      have hiff := endSyscall_inside_iff (endAddi_ready hr hb hend)
      simp [hiff]

section Loop

variable {numR numI numJ : Int} {l l' : Loop}

theorem choice_isDrawn {n : Nat} {r : Request} (h : l.choice numR numI numJ n = some r) :
    r.isDrawn = true := by
  unfold Loop.choice at h
  repeat' split at h
  all_goals first
    | (obtain rfl := Option.some.inj h; rfl)
    | exact absurd h nofun

/-- One round of `gen_instr_hex`. -/
theorem round_inside_iff (hr : Ready l.gen) (hb : Between l.gen) :
    Inside (l.round numR numI numJ) ↔ ∀ g ∈ l.calls numR numI numJ, RoomInside g := by
  unfold Loop.round Loop.calls
  cases l.gen.rand with
  | nil =>
      have hstop : Inside (.error .draws : Except Stop Loop) := inside_draws
      simp [hstop]
  | cons n rand =>
      dsimp only
      cases hchoice : l.choice numR numI numJ n with
      | none => simp [inside_ok]
      | some r =>
          have hiff := request_inside_iff (hr.withRand rand) (hb.withRand rand)
            (choice_isDrawn hchoice)
          have hround : Inside (({ l.gen with rand := rand }.request r) >>= fun g =>
              .ok (l.count g r)) ↔ RoomInside { l.gen with rand := rand } := by
            rw [inside_bind, hiff]
            exact ⟨fun h => h.1, fun h => ⟨h, fun _ _ => inside_ok _⟩⟩
          simp only [Option.map_some, Option.toList_some, List.mem_singleton, forall_eq]
          exact hround

theorem round_ready (hr : Ready l.gen) (hb : Between l.gen)
    (h : l.round numR numI numJ = .ok l') : Ready l'.gen ∧ Between l'.gen := by
  unfold Loop.round at h
  cases hrand : l.gen.rand with
  | nil =>
      rw [hrand] at h
      exact absurd h nofun
  | cons n rand =>
      rw [hrand] at h
      dsimp only at h
      cases hchoice : l.choice numR numI numJ n with
      | none =>
          rw [hchoice] at h
          obtain rfl := Except.ok.inj h
          exact ⟨hr.withRand rand, hb.withRand rand⟩
      | some r =>
          rw [hchoice] at h
          obtain ⟨g', hrequest, h⟩ := bind_ok h
          obtain rfl := Except.ok.inj h
          have hready := request_ready (hr.withRand rand) (hb.withRand rand)
            (choice_isDrawn hchoice) hrequest
          cases r <;> exact hready

/-- A whole run. -/
theorem genInstrHex_inside_iff (rounds : Nat) (hr : Ready l.gen) (hb : Between l.gen) :
    Inside (genInstrHex numR numI numJ rounds l >>= Gen.genEndSeq) ↔
      ∀ g ∈ roomCalls numR numI numJ rounds l, RoomInside g := by
  induction rounds generalizing l with
  | zero =>
      unfold genInstrHex roomCalls
      split
      next =>
          have hstop : Inside (.error .draws >>= Gen.genEndSeq) := inside_draws
          simpa using hstop
      next => exact genEndSeq_inside_iff hr hb
  | succ rounds ih =>
      unfold genInstrHex roomCalls
      split
      next =>
          have hround : Inside (l.round numR numI numJ) ↔ _ := round_inside_iff hr hb
          rw [bind_assoc, inside_bind, hround]
          cases hl : l.round numR numI numJ with
          | error e => simp
          | ok l' =>
              obtain ⟨hr', hb'⟩ := round_ready hr hb hl
              simp only [Except.ok.injEq, forall_eq', List.mem_append, ih hr' hb', or_imp,
                forall_and]
      next => exact genEndSeq_inside_iff hr hb

end Loop

end Runs

theorem ready_init (rand : List Nat) : Ready (init rand) :=
  have hprev : (0#32) < imemSize := by decide
  ⟨(between_init rand).toSettled, rfl, Nat.zero_le _, hprev⟩

/-- The states in which the run of `main` calls `make_room`. -/
def hexGenCalls (numR numI numJ : Int) (rand : List Nat) : List Gen :=
  roomCalls numR numI numJ rand.length { gen := init rand }

/-- Every index stays inside the arrays exactly when `make_room` always finds room before
the last slot. -/
theorem hexGen_inside_iff (numR numI numJ : Int) (rand : List Nat) :
    Inside (hexGen numR numI numJ rand) ↔
      ∀ g ∈ hexGenCalls numR numI numJ rand, RoomInside g :=
  genInstrHex_inside_iff rand.length (ready_init rand) (between_init rand)

/-- A jump to 0x1EFC and 64 instructions behind it: `PC[0x2000]` is read. -/
theorem hexGen_outside : ¬ Inside (hexGen 64 0 1 ([2, 0, 0x1EFC / 4] ++ List.replicate 384 0)) := by
  decide +kernel

end SimpleCpu.Mips.HexGen
