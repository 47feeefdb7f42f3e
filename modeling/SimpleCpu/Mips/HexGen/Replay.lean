import SimpleCpu.Mips.HexGen.EndSeq
import SimpleCpu.Mips.IssMirror

/-!
# Replaying what has been generated

The generator executes every word as it places it.  Whatever the rest of the text holds,
the simulator executes the same words again (`Replayable`), as long as no slot is written
twice: `Placed.replayable` is one word, and `replay_eq` a whole run with its end sequence, on
the program that `print_to_file` writes.

The end sequence may write over a slot that is in use.  The simulator comes to that slot
(`Visits`) and goes on with what it finds there, so a program with room for the sequence ends
all the same: `genEndSeq_recorded`.
-/

namespace SimpleCpu.Mips.HexGen

open SimpleCpu.Bits SimpleCpu.HexGen SimpleCpu.Iss SimpleCpu.Mips.Iss SimpleCpu.Mips.Isa

/-! ## Runs of the simulator -/

/-- The cycle that comes next. -/
def nextStep (s : Sim) : Step where
  pc := s.current.pc
  word := s.memRead s.current.pc
  regs := (cycle s).current.regs

/-- `go`, for `k` cycles at most. -/
def go : Nat → Sim → List Step
  | 0, _ => []
  | k + 1, s => if s.runBit then nextStep s :: go k (cycle s) else []

/-- The simulator executes these cycles from `s` to `t`. -/
def Executes (s : Sim) (steps : List Step) (t : Sim) : Prop :=
  ∀ k, go (steps.length + k) s = steps ++ go k t

section Executes

variable {s t : Sim} {steps : List Step}

theorem executes_nil (s : Sim) : Executes s [] s := by
  intro k
  rw [List.length_nil, Nat.zero_add, List.nil_append]

/-- One more cycle. -/
theorem Executes.snoc (h : Executes s steps t) (hrun : t.runBit = true) :
    Executes s (steps ++ [nextStep t]) (cycle t) := by
  intro k
  have hlength : (steps ++ [nextStep t]).length + k = steps.length + (k + 1) := by
    rw [List.length_append, List.length_singleton]
    omega
  rw [hlength, h (k + 1), go, if_pos hrun, List.append_assoc]
  rfl

/-- Where the simulator halts, there are no more cycles. -/
theorem Executes.halt (h : Executes s steps t) (hrun : t.runBit = false) {k : Nat}
    (hk : steps.length ≤ k) : go k s = steps := by
  have hstop : ∀ n, go n t = [] := by
    intro n
    cases n with
    | zero => rfl
    | succ n =>
        rw [go, hrun]
        rfl
  obtain ⟨n, rfl⟩ := Nat.exists_eq_add_of_le hk
  rw [h n, hstop, List.append_nil]

end Executes

/-! ## One word -/

/-- The memory holds what the generator has recorded, and the data of `init_memory`. -/
structure Loads (g : Gen) (m : Memory) : Prop where
  data : SameData initMemory.mem m
  text : ∀ i, g.pc i = true → memRead32 memRegions m i = g.instr i

/-- Whatever else the text holds, the simulator executes what the generator has executed. -/
def Replayable (g : Gen) : Prop :=
  ∀ m, Loads g m → ∃ t, Executes (initMemory.withMem m) g.trace t ∧ Mirrors g.sim t ∧
    t.mem 0 = m 0

/-- The memory holds what the generator has recorded, but perhaps not at `slot`. -/
structure LoadsBut (slot : BitVec 32) (g : Gen) (m : Memory) : Prop where
  data : SameData initMemory.mem m
  text : ∀ i, g.pc i = true → i ≠ slot → memRead32 memRegions m i = g.instr i

/-- A running simulator at `slot`, with the text of `m`. -/
structure ComesTo (m : Memory) (slot : BitVec 32) (t : Sim) : Prop where
  pc : t.current.pc = slot
  next : t.next = t.current
  zero : t.current.regs 0 = 0
  running : t.runBit = true
  text : t.mem 0 = m 0

/-- The simulator comes to every slot in use, whatever it is to find there. -/
def Visits (g : Gen) : Prop :=
  ∀ i, g.pc i = true → ∀ m, LoadsBut i g m →
    ∃ steps t, Executes (initMemory.withMem m) steps t ∧ ComesTo m i t

/-- The word uses no data from the text, and it does not leave the multiples of four. -/
structure Harmless (regs : BitVec 5 → BitVec 32) (w : BitVec 32) : Prop where
  data : accessesMem w = true → 0x1FFF ≤ (effectiveAddress regs w).toNat
  jump : jumpsReg w = true → Aligned (regs (rs w))

section Placed

variable {g g' : Gen} {w : BitVec 32}

/-- A word that is placed at a free slot keeps the words before it. -/
theorem Placed.loads (hp : Placed g w g.cur g') (hfree : g.pc g.cur = false) {m : Memory}
    (h : Loads g' m) : Loads g m := by
  refine ⟨h.data, fun i hi => ?_⟩
  have hne : i ≠ g.cur := by
    rintro rfl
    rw [hfree] at hi
    exact absurd hi nofun
  have hframe := hp.frame hne
  rw [← hframe.2]
  exact h.text i (hframe.1.trans hi)

theorem Placed.replayable (hp : Placed g w g.cur g') (hfree : g.pc g.cur = false)
    (hcur : g.cur.toNat < 0x1FFF) (hw : Harmless g.sim.current.regs w) (hr : Replayable g) :
    Replayable g' := by
  intro m hm
  obtain ⟨t, hexec, hmirror, htext⟩ := hr m (hp.loads hfree hm)
  have hfind := find_text hcur
  have hcurrent := hmirror.current_eq
  have hread : t.memRead g.cur = w := by
    have hrec := hp.recorded
    rw [← hrec.2, ← hm.text _ hrec.1]
    exact memRead32_region hfind htext
  have hload := hmirror.load (v := w) hfind
  have hfetch := Placed.fetch hcur w
  obtain ⟨hcycle, hkeep⟩ := hload.cycle hfetch (by rw [hcurrent]; exact hread) hw.data
  rw [← hp.sim] at hcycle
  refine ⟨cycle t, ?_, hcycle, hkeep.trans htext⟩
  have hstep : nextStep t = { pc := g.cur, word := w, regs := g'.sim.current.regs } := by
    unfold nextStep
    rw [hcycle.sim, hcurrent]
    exact congrArg (fun x => Step.mk g.cur x g'.sim.current.regs) hread
  rw [hp.trace_eq hcur, ← hstep]
  refine hexec.snoc ?_
  rw [hmirror.sim]
  exact hp.runBit

/-- The simulator comes to the slot of the word as the generator has come to it, and to the
others as before. -/
theorem Placed.visits (hp : Placed g w g.cur g') (hfree : g.pc g.cur = false)
    (hs : g.sim.next = g.sim.current) (hzero : g.sim.current.regs 0 = 0) (hr : Replayable g)
    (hv : Visits g) : Visits g' := by
  intro i hi m hm
  have hframe : ∀ {k}, g.pc k = true → g'.pc k = true ∧ g'.instr k = g.instr k := by
    intro k hk
    have hne : k ≠ g.cur := by
      rintro rfl
      exact Bool.false_ne_true (hfree.symm.trans hk)
    rw [(hp.frame hne).1, (hp.frame hne).2]
    exact ⟨hk, rfl⟩
  by_cases hnew : i = g.cur
  · have hloads : Loads g m := by
      refine ⟨hm.data, fun k hk => ?_⟩
      have hne : k ≠ i := by
        rintro rfl
        exact Bool.false_ne_true (hfree.symm.trans (hnew ▸ hk))
      rw [hm.text k (hframe hk).1 hne, (hframe hk).2]
    obtain ⟨t, hexec, hmirror, htext⟩ := hr m hloads
    have hcurrent := hmirror.current_eq
    refine ⟨_, t, hexec, ?_, ?_, ?_, ?_, htext⟩
    · rw [hcurrent, hnew]
      rfl
    · rw [hmirror.sim]
      exact hs
    · rw [hcurrent]
      exact hzero
    · rw [hmirror.sim]
      exact hp.runBit
  · have hold := (hp.frame hnew).1.symm.trans hi
    refine hv i hold m ⟨hm.data, fun k hk hne => ?_⟩
    rw [hm.text k (hframe hk).1 hne, (hframe hk).2]

end Placed

/-! ## Words that are harmless -/

section Harmless

variable {w : BitVec 32} {regs : BitVec 5 → BitVec 32}

theorem accessesMem_cases (h : accessesMem w = true) :
    decodeInstrType w = .i ∧
      (isLoad (w >>> 26 &&& 0x3F) = true ∨ isStore (w >>> 26 &&& 0x3F) = true) := by
  unfold accessesMem readsMem changesMem at h
  rw [Bool.or_eq_true, decide_eq_true_iff, decide_eq_true_iff, ← and_or_left] at h
  exact h

/-- A word of another format uses no data. -/
theorem harmless_of_type {t : InstrType} (htype : decodeInstrType w = t) (ht : t ≠ .i)
    (hjump : jumpsReg w = false) : Harmless regs w := by
  refine ⟨fun h => ?_, fun h => ?_⟩
  · exact absurd (htype.symm.trans (accessesMem_cases h).1) ht
  · rw [hjump] at h
    exact absurd h nofun

theorem format_r {f : RFun} {rd rs rt : BitVec 5} (hx : decodeInstr w = some (.r f rd rs rt)) :
    decodeInstrType w = .r := by
  cases encodes_of_decodeInstr hx with
  | r hop _ =>
      rw [decodeInstrType_eq, hop]
      rfl

theorem format_j {x : BitVec 26} (hx : decodeInstr w = some (.j x)) : decodeInstrType w = .j := by
  cases encodes_of_decodeInstr hx with
  | j hop =>
      rw [decodeInstrType_eq, hop]
      rfl

theorem harmless_r {f : RFun} {rd rs rt : BitVec 5} (hx : decodeInstr w = some (.r f rd rs rt)) :
    Harmless regs w := by
  cases encodes_of_decodeInstr hx with
  | r _ hf =>
      refine harmless_of_type (format_r hx) nofun ?_
      have hne : ∀ c : BitVec 6, rFun c = none → w &&& 0x3F ≠ c.setWidth 32 := by
        intro c hc h
        rw [field_funct, setWidth_eq_iff (by decide)] at h
        rw [h, hc] at hf
        exact absurd hf nofun
      unfold jumpsReg
      rw [decide_eq_false_iff_not]
      rintro ⟨-, -, h | h⟩
      · exact hne 0x8 rfl h
      · exact hne 0x9 rfl h

theorem harmless_j {t : BitVec 26} (hx : decodeInstr w = some (.j t)) : Harmless regs w := by
  refine harmless_of_type (format_j hx) nofun ?_
  unfold jumpsReg
  rw [format_j hx]
  rfl

theorem harmless_addiOpcode : Harmless regs Gen.addiOpcode where
  data h := absurd h (by decide)
  jump h := absurd h (by decide)

theorem harmless_syscallOpcode : Harmless regs Gen.syscallOpcode where
  data h := absurd h (by decide)
  jump h := absurd h (by decide)

/-- An address that has been accepted is in the data. -/
theorem data_of_verdict {g : Gen} {opcode imm : BitVec 32} {rs : BitVec 5}
    (hv : g.verdict opcode rs imm = .fine) (hls : isLsOpcode opcode = true) :
    0x2000 < (g.sim.current.regs rs + extend 15 16 imm).toNat ∧
      (g.sim.current.regs rs + extend 15 16 imm).toNat < 0x102000 := by
  unfold Gen.verdict at hv
  rw [if_pos hls] at hv
  by_cases hlo : memDataStart < g.sim.current.regs rs + extend 15 16 imm ∧
      g.sim.current.regs rs + extend 15 16 imm < memDataStart + memDataSize
  · exact hlo
  · have hcheck : g.checkLsAddr rs imm = 2 ∨ g.checkLsAddr rs imm = 0 := by
      unfold Gen.checkLsAddr
      dsimp only
      rw [if_neg hlo]
      split
      next => exact Or.inl rfl
      next => exact Or.inr rfl
    rcases hcheck with h | h <;> rw [h] at hv <;> exact absurd hv nofun

theorem opcodeValIType_cases {opcode : BitVec 32} (h : opcode ∈ opcodeValIType) :
    opcode.setWidth 6 ≠ 0 ∧
      (isLoad opcode = true ∨ isStore opcode = true → opcode = LW ∨ opcode = SW) := by
  unfold opcodeValIType at h
  simp only [List.mem_cons, List.not_mem_nil, or_false] at h
  rcases h with rfl | rfl | rfl | rfl | rfl | rfl | rfl | rfl <;> decide

theorem harmless_drawnI {g : Gen} {a : IArgs} (hop : a.opcode ∈ opcodeValIType)
    (himm : a.imm.toNat < 0x10000) (hv : g.verdict a.opcode a.rs a.imm = .fine) :
    Harmless g.sim.current.regs a.word := by
  obtain ⟨ho, hi, hword⟩ := iWord_of_drawn hop himm
  obtain ⟨hop', hrs, -, himm'⟩ := fields_iWord _ _ hword
  obtain ⟨hne, hls⟩ := opcodeValIType_cases hop
  have hfield : a.word >>> 26 &&& 0x3F = a.opcode := by
    rw [field_op, hop']
    exact ho.symm
  refine ⟨fun h => ?_, fun h => ?_⟩
  · have hcases := (accessesMem_cases h).2
    rw [hfield] at hcases
    have hdata := (data_of_verdict hv (decide_eq_true (hls hcases))).1
    unfold effectiveAddress
    dsimp only
    rw [hfield, if_pos (hls hcases), hrs, himm', ← extend_imm16, ← hi, and_not_3_toNat]
    omega
  · unfold jumpsReg at h
    rw [decide_eq_true_iff, decodeInstrType_eq, hop', if_neg hne] at h
    split at h <;> exact absurd h.1 nofun

/-- A word that is drawn is one of three kinds. -/
theorem Chosen.drawn_cases {g : Gen} {r : Request} (hw : Chosen g r w) (hr : r.isDrawn = true) :
    (∃ f rd rs rt, r = .r none ∧ decodeInstr w = some (.r f rd rs rt)) ∨
      (∃ a : IArgs, r = .i none ∧ w = a.word ∧ a.opcode ∈ opcodeValIType ∧
        a.imm.toNat < 0x10000 ∧ g.verdict a.opcode a.rs a.imm = .fine) ∨
      ∃ t, r = .j ∧ decodeInstr w = some (.j t) := by
  cases hw with
  | rGiven a => exact absurd hr Bool.false_ne_true
  | iGiven a => exact absurd hr Bool.false_ne_true
  | rDrawn a hf =>
      obtain ⟨f, hx⟩ := decodeInstr_drawnR hf
      exact Or.inl ⟨f, a.rd, a.rs, a.rt, rfl, hx⟩
  | iDrawn a hop himm hv => exact Or.inr (Or.inl ⟨a, rfl, rfl, hop, by omega, hv⟩)
  | j target ht hcheck =>
      obtain ⟨t, -, hx⟩ := decodeInstr_drawnJ ht
      exact Or.inr (Or.inr ⟨t, rfl, hx⟩)

/-- No drawn word does harm. -/
theorem harmless_of_drawn {g : Gen} {r : Request} (hw : Chosen g r w) (hr : r.isDrawn = true) :
    Harmless g.sim.current.regs w := by
  obtain ⟨f, rd, rs, rt, -, hx⟩ | ⟨a, -, rfl, hop, himm, hv⟩ | ⟨t, -, hx⟩ := hw.drawn_cases hr
  · exact harmless_r hx
  · exact harmless_drawnI hop himm hv
  · exact harmless_j hx

end Harmless

/-! ## Runs -/

/-- The next word, and a jump in front of it, are placed at slots that are free. -/
def Fresh (g : Gen) : Prop :=
  g.hasRoom = .ok true ∨ g.pc g.cur = false ∧ roomSlot g ≠ g.cur

instance (g : Gen) : Decidable (Fresh g) := inferInstanceAs (Decidable (_ ∨ _))

/-- The word that a call with arguments asks for. -/
def Request.given : Request → Option (BitVec 32)
  | .r (some a) => some a.word
  | .i (some a) => some a.variant.word
  | .r none | .i none | .j => none

/-- No slot is written twice, and a word that is asked for is harmless. -/
structure Clean (g : Gen) (r : Request) : Prop where
  fresh : Fresh g
  given : ∀ w ∈ r.given, Harmless g.sim.current.regs w

/-- What holds between two words when no slot is written twice. -/
structure Replaying (g : Gen) : Prop extends Settled g where
  replayable : Replayable g
  visits : Visits g
  aligned : Aligned g.cur
  slots : ∀ i, g.pc i = true → Aligned i
  zero : g.sim.current.regs 0 = 0

theorem replaying_init (rand : List Nat) : Replaying (init rand) where
  toSettled := (between_init rand).toSettled
  replayable _ hm := ⟨_, executes_nil _, ⟨rfl, hm.data⟩, rfl⟩
  visits _ h := absurd h nofun
  aligned := ⟨rfl⟩
  slots _ h := absurd h nofun
  zero := rfl

/-- Drawing a number changes nothing. -/
theorem Replaying.withRand {g : Gen} (hr : Replaying g) (rand : List Nat) :
    Replaying { g with rand := rand } where
  toSettled := ⟨hr.next, hr.used⟩
  replayable m hm := hr.replayable m ⟨hm.data, hm.text⟩
  visits i hi m hm := hr.visits i hi m ⟨hm.data, hm.text⟩
  aligned := hr.aligned
  slots := hr.slots
  zero := hr.zero

section Runs

variable {g g' g₁ : Gen} {w : BitVec 32}

/-- One word at a free slot. -/
theorem Placed.replaying (hp : Placed g w g.cur g') (hr : Replaying g)
    (hfree : g.pc g.cur = false) (hcur : g.cur.toNat < 0x1FFC)
    (hw : Harmless g.sim.current.regs w) : Replaying g' := by
  have hfetch := Placed.fetch (g := g) (by omega) w
  have hs : (g.sim.memWrite g.cur w).next = (g.sim.memWrite g.cur w).current := hr.next
  have hzero : (g.sim.memWrite g.cur w).current.regs 0 = 0 := hr.zero
  refine ⟨⟨hp.next, fun k hk => ?_⟩, hp.replayable hfree (by omega) hw hr.replayable,
    hp.visits hfree hr.next hr.zero hr.replayable hr.visits, ?_, fun k hk => ?_, ?_⟩
  · rw [hp.pc] at hk
    exact used_update hcur hr.used k hk
  · unfold Gen.cur
    rw [hp.sim]
    exact cycle_aligned hs hfetch hr.aligned hw.jump
  · by_cases hne : k = g.cur
    · rw [hne]
      exact hr.aligned
    · rw [(hp.frame hne).1] at hk
      exact hr.slots k hk
  · rw [hp.sim]
    exact (frame_cycle hs hzero).zero

/-- The registers after an instruction. -/
theorem Placed.regs_eq {slot : BitVec 32} (hp : Placed g w slot g')
    (hs : g.sim.next = g.sim.current) (hcur : g.cur.toNat < 0x1FFF) {x : Instr}
    (hx : decodeInstr w = some x) :
    g'.sim.current.regs =
      x.nextRegs (g.sim.memWrite g.cur w).memRead g.cur g.sim.current.regs := by
  have hs' : (g.sim.memWrite g.cur w).next = (g.sim.memWrite g.cur w).current := hs
  have hx' : decodeInstr ((g.sim.memWrite g.cur w).memRead g.cur) = some x :=
    (congrArg decodeInstr (Placed.fetch hcur w)).trans hx
  rw [hp.sim, cycle_eq hs' hx']
  rfl

/-- `make_room` leads to a free slot. -/
theorem makeRoom_replaying (hr : Replaying g) (hprev : g.prevPc = g.cur) (hfresh : Fresh g)
    (h : g.makeRoom = .ok g₁) :
    Replaying g₁ ∧ g₁.pc g₁.cur = false ∧ g₁.sim.current.regs = g.sim.current.regs := by
  have hslot := makeRoom_roomSlot hr.toSettled h
  obtain ⟨hcur, ⟨hroom, rfl⟩ | ⟨i, hj⟩⟩ := makeRoom_cases hr.toSettled h
  · exact ⟨hr, ((Gen.hasRoom_ok hroom).1.mp rfl).1, rfl⟩
  · have hfree : g.pc g.cur = false ∧ roomSlot g ≠ g.cur := by
      rcases hfresh with hroom | hfree
      · rw [hj.hasRoom] at hroom
        exact absurd hroom nofun
      · exact hfree
    have hp := hj.placed
    rw [hprev] at hp
    have hbound := hj.bound
    obtain ⟨t, hx, -⟩ := decodeInstr_genJ (by omega) hj.aligned
    refine ⟨hp.replaying hr hfree.1 hcur (harmless_j hx), ?_, hp.regs_eq hr.next (by omega) hx⟩
    rw [← hslot] at hfree
    rw [(hp.frame hfree.2).1, hj.cur]
    exact hj.free

theorem harmless_of_chosen {r : Request} (hw : Chosen g r w)
    (hgiven : ∀ w ∈ r.given, Harmless g.sim.current.regs w) : Harmless g.sim.current.regs w := by
  cases hw with
  | rGiven a => exact hgiven _ rfl
  | iGiven a => exact hgiven _ rfl
  | rDrawn a hf => exact harmless_of_drawn (.rDrawn a hf) rfl
  | iDrawn a hop himm hv => exact harmless_of_drawn (.iDrawn a hop himm hv) rfl
  | j target ht hcheck => exact harmless_of_drawn (.j target ht hcheck) rfl

/-- One request. -/
theorem request_replaying {r : Request} (hb : Between g) (hr : Replaying g) (hclean : Clean g r)
    (h : g.request r = .ok g') : Replaying g' := by
  obtain ⟨-, g₁, w, hroom, -, hcur₁, hw, hp⟩ := request_placed hb h
  obtain ⟨hr₁, hfree, hregs⟩ := makeRoom_replaying hr hb.prev hclean.fresh hroom
  refine hp.replaying hr₁ hfree hcur₁ (harmless_of_chosen hw ?_)
  rw [hregs]
  exact hclean.given

theorem Run.replaying (h : Run Clean g) : Replaying g := by
  induction h with
  | init rand => exact replaying_init rand
  | draw rand _ ih => exact ih.withRand rand
  | request hrun hclean hr ih => exact request_replaying hrun.between ih hclean hr

end Runs

/-! ## The end -/

section End

variable {g g' : Gen}

/-- `SYSCALL` with 10 in register 2 stops the simulator. -/
theorem cycle_syscall {s : Sim} (hw : s.memRead s.current.pc = Gen.syscallOpcode)
    (h2 : s.current.regs 2 = 0xa) :
    (cycle s).runBit = false ∧ (cycle s).current.regs = s.next.regs := by
  have hexec : processInstruction s =
      (if s.current.reg 2 = 0xA then { { s with instrOpcode := Gen.syscallOpcode } with
        runBit := false } else { s with instrOpcode := Gen.syscallOpcode }).assign
          (·.setPc (s.current.pc + 4)) := by
    rw [processInstruction_eq hw]
    rfl
  have hreg : s.current.reg 2 = 0xA := h2
  unfold cycle
  rw [hexec, if_pos hreg]
  exact ⟨rfl, rfl⟩

/-- With room for the whole sequence, its first word leaves 10 in register 2, and a free slot
behind it. -/
theorem EndRun.replaying {g₁ g₂ g₃ : Gen} (hb : Between g) (hr : Replaying g)
    (hfresh : Fresh g) (hroom : EndRoom g) (hrun : EndRun g g₁ g₂ g₃ g') :
    Replaying g₂ ∧ g₂.sim.current.regs 2 = 0xa ∧ g₂.pc g₂.cur = false ∧
      Placed g₂ Gen.syscallOpcode g₂.cur g' := by
  obtain ⟨hroom₂, -⟩ := (endRoom_iff hb hrun).mp hroom
  obtain ⟨-, hcur₁, -, -⟩ := hrun.bounds hb
  obtain ⟨hr₁, hfree₁, -⟩ := makeRoom_replaying hr hb.prev hfresh hrun.room₁
  have hp := hrun.syscall
  rw [hrun.second hroom₂] at hp
  refine ⟨hrun.addi.replaying hr₁ hfree₁ hcur₁ harmless_addiOpcode, ?_,
    ((Gen.hasRoom_ok hroom₂).1.mp rfl).1, hp⟩
  rw [hrun.addi.regs_eq hr₁.next (by omega) decodeInstr_addiOpcode]
  show writeReg g₁.sim.current.regs 2 (g₁.sim.current.regs 0 + _) 2 = 0xa
  rw [hr₁.zero]
  rfl

/-- With room for it, the end sequence is placed at free slots, and it halts. -/
theorem genEndSeq_replaying (hb : Between g) (hr : Replaying g) (hfresh : Fresh g)
    (hroom : EndRoom g) (h : g.genEndSeq = .ok g') :
    Replaying g' ∧ g'.sim.runBit = false ∧ ∃ steps pc, g'.trace =
      steps ++ [{ pc := pc, word := Gen.syscallOpcode, regs := g'.sim.current.regs }] ∧
      g'.sim.current.regs 2 = 0xa := by
  obtain ⟨g₁, g₂, g₃, hrun⟩ := genEndSeq_ok hb h
  obtain ⟨-, -, hcur₂, -⟩ := hrun.bounds hb
  obtain ⟨hr₂, htwo, hfree₂, hp⟩ := hrun.replaying hb hr hfresh hroom
  have hr' := hp.replaying hr₂ hfree₂ hcur₂ harmless_syscallOpcode
  have hfetch := Placed.fetch (g := g₂) (by omega) Gen.syscallOpcode
  have hcycle := cycle_syscall hfetch htwo
  rw [← hp.sim] at hcycle
  refine ⟨hr', hcycle.1, g₂.trace, g₂.cur, hp.trace_eq (by omega), ?_⟩
  rw [hcycle.2]
  show g₂.sim.next.regs 2 = 0xa
  rw [hr₂.next]
  exact htwo

end End

/-! ## The program that is written -/

/-- A program that is a part of `f`, in the text. -/
def PartOf (f : BitVec 32 → BitVec 32) (words : List (BitVec 32 × BitVec 32)) : Prop :=
  ∀ p ∈ words, p.2 = f p.1 ∧ Aligned p.1 ∧ p.1.toNat < 0x1FFF

section Load

variable {f : BitVec 32 → BitVec 32} {words : List (BitVec 32 × BitVec 32)}

/-- Loading a program leaves the data alone. -/
theorem loadProgram_data (h : PartOf f words) (s : Sim) :
    SameData s.mem (loadProgram s words).mem := by
  induction words generalizing s with
  | nil => exact fun _ _ => rfl
  | cons p ps ih =>
      intro i hi
      have hfind := find_text (h p List.mem_cons_self).2.2
      have hrest := ih (fun q hq => h q (List.mem_cons_of_mem _ hq)) (s.memWrite p.1 p.2) i hi
      exact (memWrite32_other hfind hi).symm.trans hrest

/-- Its words are read back. -/
theorem loadProgram_memRead (h : PartOf f words) {a : BitVec 32} (ha : Aligned a) (s : Sim)
    (hread : s.memRead a = f a ∨ a ∈ words.map Prod.fst) :
    (loadProgram s words).memRead a = f a := by
  induction words generalizing s with
  | nil =>
      rcases hread with hread | hmem
      · exact hread
      · exact absurd hmem List.not_mem_nil
  | cons p ps ih =>
      obtain ⟨hp, halign, htext⟩ := h p List.mem_cons_self
      refine ih (fun q hq => h q (List.mem_cons_of_mem _ hq)) (s.memWrite p.1 p.2) ?_
      have hwrite : (s.memWrite p.1 p.2).memRead a = if a = p.1 then p.2 else s.memRead a :=
        memRead32_memWrite32_aligned ((and_3_eq_zero_iff _).mpr halign.mod_eq)
          ((and_3_eq_zero_iff _).mpr ha.mod_eq) (find_text htext)
      rw [hwrite]
      by_cases hap : a = p.1
      · rw [if_pos hap, hp, hap]
        exact Or.inl rfl
      · rw [if_neg hap]
        rcases hread with hread | hmem
        · exact Or.inl hread
        · rw [List.map_cons, List.mem_cons] at hmem
          exact Or.inr (hmem.resolve_left hap)

end Load

section Replay

variable {g g' : Gen}

/-- The slots in use are multiples of four below the last slot. -/
structure Slotted (g : Gen) : Prop where
  used : ∀ i, g.pc i = true → i.toNat < 0x1FFC
  slots : ∀ i, g.pc i = true → Aligned i

theorem Replaying.slotted (hr : Replaying g) : Slotted g := ⟨hr.used, hr.slots⟩

/-- What is written is recorded. -/
theorem used_of_mem_printToFile {p : BitVec 32 × BitVec 32} (hp : p ∈ g.printToFile) :
    g.pc p.1 = true ∧ p.2 = g.instr p.1 := by
  obtain ⟨k, -, hk⟩ := List.mem_filterMap.mp hp
  dsimp only at hk
  split at hk
  next hused =>
      obtain rfl := Option.some.inj hk
      exact ⟨hused, rfl⟩
  next => exact absurd hk nofun

theorem printToFile_partOf (hg : Slotted g) : PartOf g.instr g.printToFile := by
  intro p hp
  obtain ⟨hused, hword⟩ := used_of_mem_printToFile hp
  exact ⟨hword, hg.slots _ hused, Nat.lt_trans (hg.used _ hused) (by decide)⟩

theorem mem_printToFile (hg : Slotted g) {i : BitVec 32} (hi : g.pc i = true) :
    i ∈ g.printToFile.map Prod.fst := by
  have hlt := hg.used i hi
  have hmod := (hg.slots i hi).mod_eq
  have hi' : BitVec.ofNat 32 (4 * (i.toNat / 4)) = i := by
    apply BitVec.eq_of_toNat_eq
    rw [BitVec.toNat_ofNat]
    omega
  refine List.mem_map.mpr ⟨(i, g.instr i), List.mem_filterMap.mpr ⟨i.toNat / 4, ?_, ?_⟩, rfl⟩
  · rw [List.mem_range]
    omega
  · dsimp only
    rw [hi', if_pos hi]

/-- The program that is written holds what has been recorded. -/
theorem printToFile_loads (hg : Slotted g) :
    Loads g (loadProgram initMemory g.printToFile).mem where
  data := loadProgram_data (printToFile_partOf hg) initMemory
  text i hi := loadProgram_memRead (printToFile_partOf hg) (hg.slots i hi) initMemory
    (Or.inr (mem_printToFile hg hi))

/-- A finished program replays the run that made it. -/
theorem go_printToFile (hr : Replaying g) (hhalt : g.sim.runBit = false) {k : Nat}
    (hk : g.trace.length ≤ k) : go k (loadProgram initMemory g.printToFile) = g.trace := by
  obtain ⟨t, hexec, hmirror, -⟩ := hr.replayable _ (printToFile_loads hr.slotted)
  rw [loadProgram_withMem]
  refine hexec.halt ?_ hk
  rw [hmirror.sim]
  exact hhalt

/-- Requests without arguments, each of which finds its slot free. -/
def Gen.freshRun (g : Gen) : List Request → Bool
  | [] => true
  | r :: rs => decide (Fresh g) && r.given.isNone && (g.request r).toOption.all (·.freshRun rs)

theorem Run.requests {rs : List Request} (h : Run Clean g) (hfresh : g.freshRun rs = true)
    (hrs : g.requests rs = .ok g') : Run Clean g' := by
  induction rs generalizing g with
  | nil =>
      obtain rfl := Except.ok.inj hrs
      exact h
  | cons r rs ih =>
      obtain ⟨g₁, hr, hrs⟩ := bind_ok hrs
      simp only [Gen.freshRun, hr, Except.toOption, Option.all_some, Bool.and_eq_true,
        decide_eq_true_eq, Option.isNone_iff_eq_none] at hfresh
      obtain ⟨⟨hslot, hnone⟩, hfresh⟩ := hfresh
      refine ih (h.request ⟨hslot, fun w hw => ?_⟩ hr) hfresh hrs
      rw [hnone] at hw
      exact nomatch hw

/-- A jump, a second one back to the slot before it, and a register instruction, for which
`make_room` jumps away again. -/
theorem run_back : ∃ g g', Run Clean g ∧ Fresh g ∧ EndRoom g ∧ g.genEndSeq = .ok g' ∧
    (init [0, 4, 0, 3, 0, 0, 0, 1, 0]).requests [.j, .j, .r none] = .ok g ∧
      g'.trace.length = 7 := by
  have hclean : (init [0, 4, 0, 3, 0, 0, 0, 1, 0]).freshRun [.j, .j, .r none] = true := by
    decide +kernel
  have hcheck : ((init [0, 4, 0, 3, 0, 0, 0, 1, 0]).requests [.j, .j, .r none]).toOption.any
      (fun g => decide (Fresh g) && decide (EndRoom g) &&
        g.genEndSeq.toOption.any fun g' => g'.trace.length == 7) = true := by
    decide +kernel
  obtain ⟨g, hg, hcheck⟩ := exists_of_any hcheck
  simp only [Bool.and_eq_true, decide_eq_true_eq] at hcheck
  obtain ⟨⟨hfresh, hroom⟩, hend⟩ := hcheck
  obtain ⟨g', hend, hlength⟩ := exists_of_any hend
  exact ⟨g, g', (Run.init _).requests hclean hg, hfresh, hroom, hend, hg, by simpa using hlength⟩

/-- The simulator runs the program that is written as the generator has run it, when no slot
has been written twice and there was room for the end sequence. -/
theorem replay_eq (h : Run Clean g) (hfresh : Fresh g) (hroom : EndRoom g)
    (hend : g.genEndSeq = .ok g') (k : Nat) (hk : g'.trace.length ≤ k) :
    go k (loadProgram initMemory g'.printToFile) = g'.trace := by
  obtain ⟨hr, hhalt, -⟩ := genEndSeq_replaying h.between h.replaying hfresh hroom hend
  exact go_printToFile hr hhalt hk

theorem replay_back : ∃ g g',
    (init [0, 4, 0, 3, 0, 0, 0, 1, 0]).requests [.j, .j, .r none] = .ok g ∧
      g.genEndSeq = .ok g' ∧
        ∀ k, 7 ≤ k → go k (loadProgram initMemory g'.printToFile) = g'.trace := by
  obtain ⟨g, g', hrun, hfresh, hroom, hend, hg, hlength⟩ := run_back
  refine ⟨g, g', hg, hend, fun k hk => ?_⟩
  exact replay_eq hrun hfresh hroom hend k (by omega)

/-- Two jumps, the second one to its own slot: the end sequence writes over it. -/
theorem replay_overwritten : ∃ g g', (init [0, 2, 0, 2]).requests [.j, .j] = .ok g ∧
    g.genEndSeq = .ok g' ∧
      go g'.trace.length (loadProgram initMemory g'.printToFile) ≠ g'.trace := by
  have hcheck : ((init [0, 2, 0, 2]).requests [.j, .j] >>= Gen.genEndSeq).toOption.any (fun g' =>
      (go g'.trace.length (loadProgram initMemory g'.printToFile)).map Step.word !=
        g'.trace.map Step.word) = true := by
    decide +kernel
  obtain ⟨g', hg', hne⟩ := exists_of_any hcheck
  obtain ⟨g, hg, hend⟩ := bind_ok hg'
  refine ⟨g, g', hg, hend, fun h => ?_⟩
  rw [h, bne_self_eq_false] at hne
  exact absurd hne nofun

/-- The run ends with `SYSCALL` and 10 in register 2. -/
def Ends (s : Sim) : Prop :=
  ∃ steps pc regs, regs 2 = 0xa ∧ ∀ k, steps.length < k →
    go k s = steps ++ [{ pc := pc, word := Gen.syscallOpcode, regs := regs }]

/-- At a free slot the sequence is replayed. -/
theorem ends_of_fresh (hb : Between g) (hr : Replaying g) (hfresh : Fresh g)
    (hroom : EndRoom g) (hend : g.genEndSeq = .ok g') :
    Ends (loadProgram initMemory g'.printToFile) := by
  obtain ⟨hr', hhalt, steps, pc, htrace, htwo⟩ := genEndSeq_replaying hb hr hfresh hroom hend
  refine ⟨steps, pc, g'.sim.current.regs, htwo, fun k hk => ?_⟩
  rw [← htrace]
  refine go_printToFile hr' hhalt ?_
  rw [htrace, List.length_append, List.length_singleton]
  exact hk

/-- A simulator that comes to `SYSCALL` with 10 in register 2. -/
theorem ends_of_executes {s t : Sim} {steps : List Step} (h : Executes s steps t)
    (hrun : t.runBit = true) (hw : t.memRead t.current.pc = Gen.syscallOpcode)
    (hs : t.next = t.current) (htwo : t.current.regs 2 = 0xa) : Ends s := by
  obtain ⟨hhalt, hregs⟩ := cycle_syscall hw htwo
  refine ⟨steps, t.current.pc, (cycle t).current.regs, ?_, fun k hk => ?_⟩
  · rw [hregs, hs]
    exact htwo
  · have hlast : nextStep t = { pc := t.current.pc, word := Gen.syscallOpcode
                                regs := (cycle t).current.regs } :=
      congrArg (fun x => Step.mk t.current.pc x (cycle t).current.regs) hw
    rw [← hlast]
    refine (h.snoc hrun).halt hhalt ?_
    rw [List.length_append, List.length_singleton]
    exact hk

/-- One more word of the text, if it stores nothing. -/
theorem ComesTo.step {m : Memory} {slot : BitVec 32} {t : Sim} (h : ComesTo m slot t)
    (hslot : slot.toNat < 0x1FFF) {x : Instr}
    (hx : decodeInstr (memRead32 memRegions m slot) = some x)
    (hst : x.stored t.current.regs = none) :
    ComesTo m (x.nextPc slot t.current.regs) (cycle t) ∧
      (cycle t).current.regs = x.nextRegs t.memRead slot t.current.regs := by
  have hread : t.memRead t.current.pc = memRead32 memRegions m slot := by
    rw [h.pc]
    exact memRead32_region (find_text hslot) h.text
  have hx' : decodeInstr (t.memRead t.current.pc) = some x := (congrArg decodeInstr hread).trans hx
  have hmem : t.stored x = t.mem := by
    unfold Sim.stored
    rw [hst]
  rw [cycle_eq h.next hx', ← h.pc]
  refine ⟨⟨rfl, rfl, Instr.nextRegs_zero _ _ h.zero x, h.running, ?_⟩, rfl⟩
  show t.stored x 0 = m 0
  rw [hmem]
  exact h.text

/-- From a jump to the two words of the end sequence. -/
theorem ends_of_jump {s t : Sim} {steps : List Step} {m : Memory} {a i : BitVec 32}
    (hexec : Executes s steps t) (h : ComesTo m a t) (ha : a.toNat < 0x1FFC)
    (hi : i.toNat < 0x1FF8) (h4 : i.toNat % 4 = 0)
    (hjump : memRead32 memRegions m a = Gen.genJ i)
    (haddi : memRead32 memRegions m i = Gen.addiOpcode)
    (hsyscall : memRead32 memRegions m (i + 4) = Gen.syscallOpcode) : Ends s := by
  obtain ⟨target, hx, htarget⟩ := decodeInstr_genJ (by omega) h4
  have hnext : (Instr.j target).nextPc a t.current.regs = i := by
    apply BitVec.eq_of_toNat_eq
    rw [← htarget]
    exact jumpTarget_eq (by omega) target
  obtain ⟨h₁, -⟩ := h.step (by omega) ((congrArg decodeInstr hjump).trans hx) rfl
  rw [hnext] at h₁
  obtain ⟨h₂, hregs⟩ :=
    h₁.step (by omega) ((congrArg decodeInstr haddi).trans decodeInstr_addiOpcode) rfl
  have htwo : (cycle (cycle t)).current.regs 2 = 0xa := by
    rw [hregs]
    show writeReg (cycle t).current.regs 2 ((cycle t).current.regs 0 + _) 2 = 0xa
    rw [h₁.zero]
    rfl
  have hlast : (cycle (cycle t)).memRead (cycle (cycle t)).current.pc = Gen.syscallOpcode := by
    have hpc : (cycle (cycle t)).current.pc = i + 4 := h₂.pc
    have h4' : (i + 4).toNat < 0x1FFF := by bv_omega
    rw [hpc]
    exact (memRead32_region (find_text h4') h₂.text).trans hsyscall
  exact ends_of_executes ((hexec.snoc h.running).snoc h₁.running) h₂.running hlast h₂.next htwo

section Overwritten

variable {g₁ g₂ g₃ : Gen} {i : BitVec 32}

/-- The slots that the sequence and the jump in front of it leave alone. -/
theorem EndRun.others (hb : Between g) (hrun : EndRun g g₁ g₂ g₃ g')
    (hroom : g₂.hasRoom = .ok true) (hj : Jumped g i g₁) {k : BitVec 32} (h₀ : k ≠ g.cur)
    (h₁ : k ≠ g₁.cur) (h₂ : k ≠ g₂.cur) : g'.pc k = g.pc k ∧ g'.instr k = g.instr k := by
  rw [← hb.prev] at h₀
  have hframe := hrun.frame hroom h₁ h₂
  have hframe' := hj.placed.frame h₀
  exact ⟨hframe.1.trans hframe'.1, hframe.2.trans hframe'.2⟩

/-- The slots in use are those of the sequence and those from before. -/
theorem EndRun.slotted (hb : Between g) (hg : Slotted g) (hrun : EndRun g g₁ g₂ g₃ g')
    (hroom : g₂.hasRoom = .ok true) (hj : Jumped g i g₁) (hused : g.pc g.cur = true) :
    Slotted g' := by
  obtain ⟨-, hcur₁, hcur₂, -⟩ := hrun.bounds hb
  have hcases : ∀ k, g'.pc k = true → k = g₁.cur ∨ k = g₂.cur ∨ g.pc k = true := by
    intro k hk
    by_cases h₁ : k = g₁.cur
    · exact .inl h₁
    by_cases h₂ : k = g₂.cur
    · exact .inr (.inl h₂)
    by_cases h₀ : k = g.cur
    · exact .inr (.inr (h₀ ▸ hused))
    · exact .inr (.inr ((hrun.others hb hroom hj h₀ h₁ h₂).1.symm.trans hk))
  have h4 : Aligned g₁.cur := by
    rw [hj.cur]
    exact ⟨hj.aligned⟩
  constructor
  · intro k hk
    rcases hcases k hk with rfl | rfl | hk
    · exact hcur₁
    · exact hcur₂
    · exact hg.used k hk
  · intro k hk
    rcases hcases k hk with rfl | rfl | hk
    · exact h4
    · rw [hrun.cur]
      exact h4.add_four
    · exact hg.slots k hk

/-- Where the jump in front of the sequence is written over a slot in use, the simulator comes
to it, and goes on to the sequence. -/
theorem ends_of_overwritten (hb : Between g) (hr : Replaying g) (hroom : EndRoom g)
    (hrun : EndRun g g₁ g₂ g₃ g') (hj : Jumped g i g₁) (hused : g.pc g.cur = true) :
    Ends (loadProgram initMemory g'.printToFile) := by
  obtain ⟨hroom₂, -⟩ := (endRoom_iff hb hrun).mp hroom
  obtain ⟨hcur, -, hcur₂, -⟩ := hrun.bounds hb
  have hi : g₁.cur = i := hj.cur
  have hi₂ : g₂.cur = i + 4 := by rw [hrun.cur, hi]
  have hne : g.cur ≠ g₁.cur := by
    rw [hi]
    intro heq
    rw [heq, hj.free] at hused
    exact Bool.false_ne_true hused
  have hfree₂ : g.pc g₂.cur = false := by
    rw [hrun.cur, makeRoom_roomSlot hb.toSettled hrun.room₁]
    exact hroom.2.1
  -- what the two slots of the sequence and that of the jump hold
  obtain ⟨hpc₀, hinstr₀⟩ := (hrun.recorded_jump hroom₂ hb hj).mpr hne
  obtain ⟨hpc₁, hinstr₁⟩ := hrun.recorded_addi hroom₂
  obtain ⟨hpc₂, hinstr₂⟩ := hrun.syscall.recorded
  rw [hrun.second hroom₂] at hpc₂ hinstr₂
  have hloads := printToFile_loads (hrun.slotted hb hr.slotted hroom₂ hj hused)
  rw [loadProgram_withMem]
  generalize (loadProgram initMemory g'.printToFile).mem = m at hloads
  have hbut : LoadsBut g.cur g m := by
    refine ⟨hloads.data, fun k hk h₀ => ?_⟩
    have h₁ : k ≠ g₁.cur := by
      rintro rfl
      rw [hi, hj.free] at hk
      exact Bool.false_ne_true hk
    have h₂ : k ≠ g₂.cur := by
      rintro rfl
      exact Bool.false_ne_true (hfree₂.symm.trans hk)
    obtain ⟨hpc, hinstr⟩ := hrun.others hb hroom₂ hj h₀ h₁ h₂
    rw [hloads.text k (hpc.trans hk), hinstr]
  obtain ⟨steps, t, hexec, ht⟩ := hr.visits g.cur hused m hbut
  have h4 := hj.aligned
  have hbound : i.toNat < 0x1FF8 := by
    have hlt := hj.bound
    rw [hi₂] at hcur₂
    bv_omega
  refine ends_of_jump hexec ht hcur hbound h4 ?_ ?_ ?_
  · rw [hloads.text _ hpc₀, hinstr₀]
  · rw [← hi, hloads.text _ hpc₁, hinstr₁]
  · rw [← hi₂, hloads.text _ hpc₂, hinstr₂]

end Overwritten

/-- The end sequence is recorded where it is executed exactly when there is room for it, and
then the program that is written comes to its end, if no request has written a slot twice. -/
theorem genEndSeq_recorded {ok : Gen → Request → Prop} (h : Run ok g)
    (hend : g.genEndSeq = .ok g') :
    (Recorded g g' ↔ EndRoom g) ∧
      (Run Clean g → EndRoom g → Ends (loadProgram initMemory g'.printToFile)) := by
  refine ⟨recorded_iff_endRoom h.between hend, fun hclean hroom => ?_⟩
  have hb := h.between
  have hr := hclean.replaying
  by_cases hfresh : Fresh g
  · exact ends_of_fresh hb hr hfresh hroom hend
  · obtain ⟨g₁, g₂, g₃, hrun⟩ := genEndSeq_ok hb hend
    obtain ⟨-, ⟨hfirst, -⟩ | ⟨i, hj⟩⟩ := makeRoom_cases hb.toSettled hrun.room₁
    · exact absurd (Or.inl hfirst) hfresh
    · refine ends_of_overwritten hb hr hroom hrun hj ?_
      have hslot := ((endRoom_iff hb hrun).mp hroom).2
      by_contra hfree
      refine hfresh (Or.inr ⟨by simpa using hfree, hslot.resolve_left fun hfirst => ?_⟩)
      rw [hj.hasRoom] at hfirst
      exact absurd hfirst nofun

/-- The jump in front of the end sequence is written over a jump to itself. -/
theorem recorded_over_jump : ∃ g g', (init [0, 2, 0, 2]).requests [.j, .j] = .ok g ∧
    ¬ Fresh g ∧ g.genEndSeq = .ok g' ∧ Recorded g g' ∧
      Ends (loadProgram initMemory g'.printToFile) := by
  have hclean : (init [0, 2, 0, 2]).freshRun [.j, .j] = true := by
    decide +kernel
  have hcheck : ((init [0, 2, 0, 2]).requests [.j, .j]).toOption.any (fun g =>
      !decide (Fresh g) && decide (EndRoom g) &&
        g.genEndSeq.toOption.any fun _ => true) = true := by
    decide +kernel
  obtain ⟨g, hg, hcheck⟩ := exists_of_any hcheck
  simp only [Bool.and_eq_true, decide_eq_true_eq, Bool.not_eq_true', decide_eq_false_iff_not]
    at hcheck
  obtain ⟨⟨hfresh, hroom⟩, hend⟩ := hcheck
  obtain ⟨g', hend, -⟩ := exists_of_any hend
  have hrun : Run Clean g := (Run.init _).requests hclean hg
  have hrecorded := genEndSeq_recorded hrun hend
  exact ⟨g, g', hg, hfresh, hend, hrecorded.1.mpr hroom, hrecorded.2 hrun hroom⟩

/-- Two jumps to two slots in front of the first one: the jump of the second `make_room` is
recorded over the first word of the end sequence. -/
theorem not_recorded_jump : ∃ g g', (init [0, 4, 0, 2]).requests [.j, .j] = .ok g ∧
    g.genEndSeq = .ok g' ∧ ¬ Recorded g g' := by
  have hcheck : ((init [0, 4, 0, 2]).requests [.j, .j]).toOption.any (fun g =>
      g.genEndSeq.toOption.any fun g' => !decide (Recorded g g')) = true := by
    decide +kernel
  obtain ⟨g, hg, hcheck⟩ := exists_of_any hcheck
  obtain ⟨g', hend, hnot⟩ := exists_of_any hcheck
  exact ⟨g, g', hg, hend, by simpa using hnot⟩

end Replay

end SimpleCpu.Mips.HexGen
