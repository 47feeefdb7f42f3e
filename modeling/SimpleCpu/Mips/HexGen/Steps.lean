import SimpleCpu.Mips.HexGen.Words

/-!
# What one request does

`request_ok` says all that a request can do: it may place a jump, and it places a word
that suits the request.  `Run` are the states between requests, for any numbers that are
drawn, and `Between` is what holds in all of them.
-/

namespace SimpleCpu.Mips.HexGen

open SimpleCpu.HexGen SimpleCpu.Iss SimpleCpu.Mips.Iss SimpleCpu.Mips.Isa

/-! ## Placing a word -/

/-- The word `w` has been loaded and executed at the current address, and recorded at
`slot`. -/
structure Placed (g : Gen) (w slot : BitVec 32) (g' : Gen) : Prop where
  bound : slot < imemSize
  runBit : g.sim.runBit = true
  sim : g'.sim = cycle (g.sim.memWrite g.cur w)
  pc : g'.pc = Function.update g.pc slot true
  instr : g'.instr = Function.update g.instr slot w
  trace : g'.trace = g.trace ++
    [{ pc := g.cur, word := (g.sim.memWrite g.cur w).memRead g.cur, regs := g'.sim.current.regs }]

namespace Gen

variable {g g' : Gen} {w : BitVec 32}

theorem updateCpu_ok {pc : BitVec 32} (h : g.updateCpu pc w = .ok g') :
    pc < imemSize ∧
      g' = { g with pc := Function.update g.pc pc true
                    instr := Function.update g.instr pc w, prevPc := g.cur } := by
  unfold updateCpu at h
  split at h
  next hpc => exact ⟨hpc, (Except.ok.inj h).symm⟩
  next => exact absurd h nofun

theorem run_ok (h : g.run = .ok g') :
    g.sim.runBit = true ∧
      g' = { g with sim := cycle g.sim
                    trace := g.trace ++
                      [{ pc := g.cur, word := g.sim.memRead g.cur
                         regs := (cycle g.sim).current.regs }] } := by
  unfold run at h
  split at h
  next => exact absurd h nofun
  next hrun =>
  split at h
  next => exact absurd h nofun
  next => exact ⟨by simpa using hrun, (Except.ok.inj h).symm⟩

theorem hasRoom_ok {b : Bool} (h : g.hasRoom = .ok b) :
    (b = true ↔ g.pc g.cur = false ∧ g.pc (g.cur + 4) = false ∧ g.cur ≠ 0xFFC) ∧
      g.cur < imemSize ∧ (g.pc g.cur = false → g.cur + 4 < imemSize) := by
  obtain ⟨free, hfree, h⟩ := bind_ok h
  obtain ⟨hiff, hlt, hlt'⟩ := Slots.isFree_ok hfree
  obtain rfl := Except.ok.inj h
  refine ⟨?_, hlt, hlt'⟩
  rw [Bool.and_eq_true, hiff, bne_iff_ne, and_assoc]

/-- `make_room` returns at once, or it places one jump to a free slot. -/
theorem makeRoom_ok (h : g.makeRoom = .ok g') :
    (g.hasRoom = .ok true ∧ g' = g) ∨
    ∃ i, g.hasRoom = .ok false ∧ g.pc.find roomAddrs = .ok (some i) ∧
      Placed g (genJ i) g.prevPc g' ∧ g'.prevPc = g'.cur ∧ g'.instrGen = g.instrGen := by
  obtain ⟨room, hroom, h⟩ := bind_ok h
  cases room with
  | true => exact Or.inl ⟨hroom, (Except.ok.inj h).symm⟩
  | false =>
      obtain ⟨found, hfound, h⟩ := bind_ok h
      cases found with
      | none => exact absurd h nofun
      | some i =>
          obtain ⟨g₁, hrun, h⟩ := bind_ok h
          obtain ⟨hbit, rfl⟩ := run_ok hrun
          obtain ⟨hbound, rfl⟩ := updateCpu_ok h
          exact Or.inr ⟨i, hroom, hfound, ⟨hbound, hbit, rfl, rfl, rfl, rfl⟩, rfl, rfl⟩

/-- The end of a `gen_` function. -/
theorem emit_ok (h : g.emit w = .ok g') :
    Placed g w (if g.instrGen = 0 then 0 else g.prevPc) g' ∧ g'.prevPc = g'.cur ∧
      g'.instrGen = g.instrGen + 1 := by
  obtain ⟨g₁, hrun, h⟩ := bind_ok h
  obtain ⟨hbit, rfl⟩ := run_ok hrun
  obtain ⟨g₂, hupdate, h⟩ := bind_ok h
  obtain ⟨hbound, rfl⟩ := updateCpu_ok hupdate
  obtain rfl := Except.ok.inj h
  exact ⟨⟨hbound, hbit, rfl, rfl, rfl, rfl⟩, rfl, rfl⟩

/-- The first half of `gen_end_seq` records its word before it executes it, so `prev_pc`
stays behind. -/
theorem endAddi_ok (h : g.endAddi = .ok g') :
    ∃ g₁, g.makeRoom = .ok g₁ ∧ Placed g₁ addiOpcode g₁.cur g' ∧ g'.prevPc = g₁.cur ∧
      g'.instrGen = g₁.instrGen + 1 := by
  obtain ⟨g₁, hroom, h⟩ := bind_ok h
  obtain ⟨g₂, hupdate, h⟩ := bind_ok h
  obtain ⟨hbound, rfl⟩ := updateCpu_ok hupdate
  obtain ⟨g₃, hrun, h⟩ := bind_ok h
  obtain ⟨hbit, rfl⟩ := run_ok hrun
  obtain rfl := Except.ok.inj h
  exact ⟨g₁, hroom, ⟨hbound, hbit, rfl, rfl, rfl, rfl⟩, rfl, rfl⟩

theorem endSyscall_ok (h : g.endSyscall = .ok g') :
    ∃ g₁, g.makeRoom = .ok g₁ ∧ Placed g₁ syscallOpcode g₁.cur g' := by
  obtain ⟨g₁, hroom, h⟩ := bind_ok h
  obtain ⟨g₂, hupdate, h⟩ := bind_ok h
  obtain ⟨hbound, rfl⟩ := updateCpu_ok hupdate
  obtain ⟨hbit, rfl⟩ := run_ok h
  exact ⟨g₁, hroom, hbound, hbit, rfl, rfl, rfl, rfl⟩

end Gen

/-! ## What a request chooses -/

/-- The word `w` is one that the request can lead to in the state `g`. -/
inductive Chosen (g : Gen) : Request → BitVec 32 → Prop where
  | rGiven (a : RArgs) : Chosen g (.r (some a)) a.word
  | rDrawn (a : RArgs) (hf : a.funct ∈ functValRType) : Chosen g (.r none) a.word
  | iGiven (a : IArgs) : Chosen g (.i (some a)) a.variant.word
  | iDrawn (a : IArgs) (hop : a.opcode ∈ opcodeValIType) (himm : a.imm.toNat < 0xFFFF)
      (hv : g.verdict a.opcode a.rs a.imm = .fine) : Chosen g (.i none) a.word
  | j (target : BitVec 32) (ht : target.toNat < 0x3FFFFFF)
      (hcheck : g.checkJAddr (g.jAddr target) = true) : Chosen g .j (jWord J target)

namespace Gen

variable {g g' : Gen} {w : BitVec 32}

theorem drawR_ok {rand rand' : List Nat} {a : RArgs} (h : drawR rand = .ok (a, rand')) :
    a.funct ∈ functValRType := by
  have htable : ∀ k < 5, functValRType.getD k 0 ∈ functValRType := by decide
  unfold drawR at h
  split at h
  next functIdx rs rt rd shamt rand =>
      obtain ⟨rfl, -⟩ := Prod.mk.inj (Except.ok.inj h)
      exact htable _ (Nat.mod_lt _ (by decide))
  next => exact absurd h nofun

theorem drawImm_ok {opcode imm : BitVec 32} {o : Option (BitVec 5)} {rs : BitVec 5}
    {rand rand' : List Nat} (h : g.drawImm opcode o rand = .ok ((rs, imm), rand')) :
    g.verdict opcode rs imm = .fine ∧ imm.toNat < 0xFFFF := by
  induction rand generalizing o with
  | nil =>
      unfold drawImm at h
      exact absurd h nofun
  | cons n rand ih =>
      cases o with
      | none => exact ih h
      | some r =>
          unfold drawImm at h
          cases hv : g.verdict opcode r (BitVec.ofNat 32 (n % 0xFFFF)) with
          | rs =>
              rw [hv] at h
              exact ih h
          | imm =>
              rw [hv] at h
              exact ih h
          | fine =>
              rw [hv] at h
              obtain ⟨⟨rfl, rfl⟩, -⟩ := by simpa using h
              refine ⟨hv, ?_⟩
              rw [BitVec.toNat_ofNat]
              omega

theorem drawI_ok {rand rand' : List Nat} {a : IArgs} (h : g.drawI rand = .ok (a, rand')) :
    a.opcode ∈ opcodeValIType ∧ a.imm.toNat < 0xFFFF ∧
      g.verdict a.opcode a.rs a.imm = .fine := by
  have htable : ∀ k < 8, opcodeValIType.getD k 0 ∈ opcodeValIType := by decide
  unfold drawI at h
  split at h
  next opcodeIdx rt rand =>
      obtain ⟨⟨⟨rs, imm⟩, rand''⟩, hdraw, h⟩ := bind_ok h
      obtain ⟨rfl, -⟩ := Prod.mk.inj (Except.ok.inj h)
      obtain ⟨hfine, himm⟩ := drawImm_ok hdraw
      exact ⟨htable _ (Nat.mod_lt _ (by decide)), himm, hfine⟩
  next => exact absurd h nofun

theorem drawTarget_ok {rand rand' : List Nat} {target : BitVec 32}
    (h : g.drawTarget rand = .ok (target, rand')) :
    target.toNat < 0x3FFFFFF ∧ g.checkJAddr (g.jAddr target) = true := by
  induction rand with
  | nil =>
      unfold drawTarget at h
      exact absurd h nofun
  | cons n rand ih =>
      unfold drawTarget at h
      dsimp only at h
      split at h
      next => exact ih h
      next hcheck =>
          split at h
          next => exact ih h
          next =>
              obtain ⟨rfl, -⟩ := Prod.mk.inj (Except.ok.inj h)
              refine ⟨?_, by simpa using hcheck⟩
              rw [BitVec.toNat_ofNat]
              omega

/-- Recording an address touches the two arrays of addresses. -/
theorem recordAddr_ok {a : IArgs} (h : g.recordAddr a = .ok g') :
    ∃ ls br, g' = { g with lsAddr := ls, brAddr := br } := by
  unfold recordAddr at h
  repeat' split at h
  all_goals first
    | exact ⟨_, _, (Except.ok.inj h).symm⟩
    | exact absurd h nofun

/-- `gen_j_instr` emits a jump to a target that has passed the check. -/
theorem genJInstr_ok (h : g.genJInstr = .ok g') : ∃ target rand,
    target.toNat < 0x3FFFFFF ∧ g.checkJAddr (g.jAddr target) = true ∧
      { g with rand := rand }.emit (jWord J target) = .ok g' := by
  unfold genJInstr at h
  split at h
  next => exact absurd h nofun
  next opcodeIdx rand hrand =>
      split at h
      next => exact absurd h nofun
      next opcode hopcode =>
          obtain ⟨⟨target, rand'⟩, hdraw, h⟩ := bind_ok h
          obtain ⟨ht, hcheck⟩ := drawTarget_ok hdraw
          have hJ : opcode = J := by
            obtain ⟨hlt, hget⟩ := List.getElem?_eq_some_iff.mp hopcode
            unfold opcodeValJType at hget hlt
            rw [← hget]
            exact List.mem_singleton.mp (List.getElem_mem hlt)
          subst hJ
          exact ⟨target, rand', ht, hcheck, h⟩

/-- The draws change nothing that placing a word depends on. -/
theorem emit_withRand_ok {rand : List Nat} (h : { g with rand := rand }.emit w = .ok g') :
    Placed g w (if g.instrGen = 0 then 0 else g.prevPc) g' ∧ g'.prevPc = g'.cur ∧
      g'.instrGen = g.instrGen + 1 := by
  obtain ⟨hp, hprev, hgen⟩ := emit_ok h
  exact ⟨⟨hp.bound, hp.runBit, hp.sim, hp.pc, hp.instr, hp.trace⟩, hprev, hgen⟩

/-- A request makes room, and then it places a word that it can lead to. -/
theorem request_ok {r : Request} (h : g.request r = .ok g') :
    ∃ g₁ w, g.makeRoom = .ok g₁ ∧ Chosen g₁ r w ∧
      Placed g₁ w (if g₁.instrGen = 0 then 0 else g₁.prevPc) g' ∧ g'.prevPc = g'.cur ∧
      g'.instrGen = g₁.instrGen + 1 := by
  obtain ⟨g₁, hroom, h⟩ := bind_ok h
  cases r with
  | r args =>
      cases args with
      | some a =>
          obtain ⟨hp, hprev, hgen⟩ := emit_ok (h : g₁.emit a.word = .ok g')
          exact ⟨g₁, _, hroom, .rGiven a, hp, hprev, hgen⟩
      | none =>
          have hr : g₁.genRInstr none = .ok g' := h
          obtain ⟨⟨a, rand⟩, hdraw, h⟩ := bind_ok hr
          exact ⟨g₁, _, hroom, .rDrawn a (drawR_ok hdraw), emit_withRand_ok h⟩
  | i args =>
      have htail : ∀ (a : IArgs) (rand : List Nat),
          (({ g₁ with rand := rand }.recordAddr a) >>= fun g => g.emit a.word) = .ok g' →
          Placed g₁ a.word (if g₁.instrGen = 0 then 0 else g₁.prevPc) g' ∧
            g'.prevPc = g'.cur ∧ g'.instrGen = g₁.instrGen + 1 := by
        intro a rand h
        obtain ⟨g₂, hrecord, h⟩ := bind_ok h
        obtain ⟨ls, br, rfl⟩ := recordAddr_ok hrecord
        obtain ⟨hp, hprev, hgen⟩ := emit_ok h
        exact ⟨⟨hp.bound, hp.runBit, hp.sim, hp.pc, hp.instr, hp.trace⟩, hprev, hgen⟩
      cases args with
      | some a => exact ⟨g₁, _, hroom, .iGiven a, htail a.variant g₁.rand h⟩
      | none =>
          have hi : g₁.genIInstr none = .ok g' := h
          obtain ⟨⟨a, rand⟩, hdraw, h⟩ := bind_ok hi
          obtain ⟨hop, himm, hv⟩ := drawI_ok hdraw
          exact ⟨g₁, _, hroom, .iDrawn a hop himm hv, htail a rand h⟩
  | j =>
      obtain ⟨target, rand, ht, hcheck, hemit⟩ := genJInstr_ok (h : g₁.genJInstr = .ok g')
      exact ⟨g₁, _, hroom, .j target ht hcheck, emit_withRand_ok hemit⟩

end Gen

end SimpleCpu.Mips.HexGen
