import SimpleCpu.Mips.IssCorrect

/-!
# What the simulator changes

`store_law` is the law of `mem_read_32` and `mem_write_32` over `MEM_REGIONS`, and
`frame_law` bounds what one `cycle` changes, for every word, supported or not.
-/

namespace SimpleCpu.Mips.Iss

open SimpleCpu.Bits SimpleCpu.Iss SimpleCpu.Mips.Isa

/-! ## Memory -/

theorem memRegions_bounded : ∀ r ∈ memRegions, r.Bounded := by decide

/-- A word is read back, disjoint words do not touch each other, whatever their regions,
and outside the regions nothing is written and zero is read. -/
theorem store_law (mem : Memory) (a b v : BitVec 32) :
    ((∃ r ∈ memRegions, r.HoldsWord a) →
      memRead32 memRegions (memWrite32 memRegions mem a v) a = v) ∧
    ((∃ r ∈ memRegions, r.HoldsWord a) → (∃ r ∈ memRegions, r.HoldsWord b) →
      (a.toNat + 4 ≤ b.toNat ∨ b.toNat + 4 ≤ a.toNat) →
      memRead32 memRegions (memWrite32 memRegions mem a v) b = memRead32 memRegions mem b) ∧
    ((∀ r ∈ memRegions, ¬ r.HoldsByte a) →
      memWrite32 memRegions mem a v = mem ∧ memRead32 memRegions mem a = 0) := by
  refine ⟨fun ha => ?_, fun ha hb hdisj => ?_, fun hnone => ?_⟩
  · obtain ⟨r, hr⟩ := exists_findRegion memRegions_bounded ha
    exact memRead32_memWrite32 hr
  · obtain ⟨ra, hra, hina⟩ := ha
    obtain ⟨rb, hrb, hinb⟩ := hb
    obtain ⟨h₁, h₂⟩ := word_distance ⟨ra, hra, memRegions_bounded ra hra, hina⟩
      ⟨rb, hrb, memRegions_bounded rb hrb, hinb⟩ hdisj
    exact memRead32_memWrite32_of_disjoint h₁ h₂
  · have hfind := findRegion_eq_none memRegions_bounded hnone
    exact ⟨memWrite32_of_outside hfind, by simp only [memRead32, hfind]⟩

/-- An unaligned word, the stack beside it, and the first address behind the text. -/
theorem store_law_edges :
    memRead32 memRegions (memWrite32 memRegions (fun _ _ => 0xef) 0x2001 7) 0x2001 = 7 ∧
    memRead32 memRegions (memWrite32 memRegions (fun _ _ => 0xef) 0x2001 7) 0x7ff00000 =
      memRead32 memRegions (fun _ _ => 0xef) 0x7ff00000 ∧
    (memWrite32 memRegions (fun _ _ => 0xef) 0x1fff 7 = fun _ _ => 0xef) ∧
    memRead32 memRegions (fun _ _ => 0xef) 0x1fff = 0 :=
  ⟨(store_law _ 0x2001 0 7).1 ⟨_, List.mem_cons_of_mem _ List.mem_cons_self, by decide, by decide⟩,
    (store_law _ 0x2001 0x7ff00000 7).2.1
      ⟨_, List.mem_cons_of_mem _ List.mem_cons_self, by decide, by decide⟩
      ⟨_, List.mem_cons_of_mem _ (List.mem_cons_of_mem _ List.mem_cons_self), by decide, by decide⟩
      (by decide),
    (store_law _ 0x1fff 0 7).2.2 (by decide)⟩

/-! ## What the architecture lets a word change -/

/-- The functions of an R-type word that write `rd`. -/
def writesRd (funct : BitVec 32) : Bool :=
  funct ∈ [SLL, SRL, SRA, SLLV, SRLV, SRAV, ADD, ADDU, SUB, SUBU, AND, OR, XOR, NOR, SLT,
    SLTU, MFHI, MFLO]

def writesHiLo (funct : BitVec 32) : Bool := funct ∈ [MULT, MULTU, DIV, DIVU, MTHI, MTLO]

/-- The opcodes of immediate operations and loads. -/
def writesRt (opcode : BitVec 32) : Bool :=
  opcode ∈ [ADDI, ADDIU, SLTI, SLTIU, ANDI, ORI, XORI, LUI, LB, LH, LW, LBU, LHU]

def isStore (opcode : BitVec 32) : Bool := opcode ∈ [SB, SH, SW]

/-- The register an R-type word designates. -/
def designatedR (rd : BitVec 5) (funct : BitVec 32) : Option (BitVec 5) :=
  if funct = JALR then some 31 else if writesRd funct then some rd else none

def designatedI (rt : BitVec 5) (opcode : BitVec 32) : Option (BitVec 5) :=
  if opcode = BVAR then
    if rt.setWidth 32 = BLTZAL ∨ rt.setWidth 32 = BGEZAL then some 31 else none
  else if writesRt opcode then some rt
  else none

def designatedJ (opcode : BitVec 32) : Option (BitVec 5) :=
  if opcode = JAL then some 31 else none

/-- The one general register a word may change. -/
def designated (w : BitVec 32) : Option (BitVec 5) :=
  match decodeInstrType w with
  | .r => designatedR (rd w) (w &&& 0x3F)
  | .i => designatedI (rt w) (w >>> 26 &&& 0x3F)
  | .j => designatedJ (w >>> 26 &&& 0x3F)

/-- The word may change `HI` and `LO`. -/
def changesHiLo (w : BitVec 32) : Bool :=
  decodeInstrType w = .r ∧ writesHiLo (w &&& 0x3F)

/-- The word may change memory. -/
def changesMem (w : BitVec 32) : Bool :=
  decodeInstrType w = .i ∧ isStore (w >>> 26 &&& 0x3F)

/-- The address a load or a store uses; `LW` and `SW` drop its low bits. -/
def effectiveAddress (regs : BitVec 5 → BitVec 32) (w : BitVec 32) : BitVec 32 :=
  let address := regs (rs w) + (imm16 w).signExtend 32
  let opcode := w >>> 26 &&& 0x3F
  if opcode = LW ∨ opcode = SW then address &&& 0xFFFFFFFC else address

/-! ## One case of a switch -/

/-- Of what a case assigns to, `NEXT_STATE` differs in the program counter, in the
register `rd` unless it is register 0, and in `HI` and `LO` where `hilo` says so. -/
structure Writes (rd : Option (BitVec 5)) (hilo : Bool) (n n' : CpuState) : Prop where
  regs : ∀ r, n'.regs r ≠ n.regs r → rd = some r ∧ r ≠ 0
  hi : n'.hi ≠ n.hi → hilo = true
  lo : n'.lo ≠ n.lo → hilo = true

namespace Writes

variable {d : Option (BitVec 5)} {hilo : Bool} {n : CpuState}

theorem same : Writes d hilo n n :=
  ⟨fun _ h => absurd rfl h, fun h => absurd rfl h, fun h => absurd rfl h⟩

theorem setPc (pc : BitVec 32) : Writes d hilo n (n.setPc pc) :=
  ⟨fun _ h => absurd rfl h, fun h => absurd rfl h, fun h => absurd rfl h⟩

theorem setReg_setPc {r : BitVec 5} (hr : r ≠ 0) (value pc : BitVec 32) :
    Writes (some r) hilo n ((n.setReg (r.setWidth 32) value).setPc pc) := by
  rw [setReg_field]
  refine ⟨fun r' h => ?_, fun h => absurd rfl h, fun h => absurd rfl h⟩
  by_cases hr' : r' = r
  · subst hr'
    exact ⟨rfl, hr⟩
  · exact absurd (Function.update_of_ne hr' _ _) h

theorem link (value pc : BitVec 32) :
    Writes (some 31) hilo n ((n.setPc pc).setReg 31 value) := by
  rw [setReg_31]
  refine ⟨fun r' h => ?_, fun h => absurd rfl h, fun h => absurd rfl h⟩
  by_cases hr' : r' = 31
  · subst hr'
    exact ⟨rfl, by decide⟩
  · exact absurd (Function.update_of_ne hr' _ _) h

theorem hiLo {n' : CpuState} (h : n'.regs = n.regs) : Writes d true n n' :=
  ⟨fun r hr => absurd (congrFun h r) hr, fun _ => rfl, fun _ => rfl⟩

/-- One more case of a switch. -/
theorem ite {c : Prop} [Decidable c] {s₁ s₂ : Sim} (h₁ : c → Writes d hilo n s₁.next)
    (h₂ : ¬ c → Writes d hilo n s₂.next) : Writes d hilo n (if c then s₁ else s₂).next := by
  split
  next h => exact h₁ h
  next h => exact h₂ h

end Writes

section Cases

variable (s : Sim)

theorem executeR_writes (rs rt : BitVec 32) (rd : BitVec 5) (shamt funct : BitVec 32) :
    Writes (designatedR rd funct) (writesHiLo funct) s.next
      (executeR s rs rt (rd.setWidth 32) shamt funct).next := by
  unfold executeR
  dsimp only
  refine .ite (fun _ => .setPc _) fun hguard => ?_
  have hrd : funct ≠ SYSCALL → rd ≠ 0 := by
    rintro hsys rfl
    exact hguard ⟨rfl, hsys⟩
  repeat' refine Writes.ite (fun h => ?_) fun _ => ?_
  all_goals first
    | exact .same
    | (subst h; exact .setReg_setPc (hrd (by decide)) _ _)
    | (subst h; exact .setPc _)
    | (subst h; exact .link _ _)
    | (subst h; exact .hiLo rfl)
    | (rcases h with rfl | rfl <;> exact .hiLo rfl)
    | (subst h; show Writes _ _ _ (CpuState.setPc (Sim.next (if _ then _ else _)) _)
       split <;> exact .setPc _)

theorem executeI_writes (opcode rs : BitVec 32) (rt : BitVec 5) (imm : BitVec 32) :
    Writes (designatedI rt opcode) false s.next
      (executeI s opcode rs (rt.setWidth 32) imm).next := by
  have hwrite : ∀ value pc : BitVec 32, writesRt opcode = true → opcode ≠ BVAR →
      rt.setWidth 32 ≠ (0 : BitVec 32) →
      Writes (designatedI rt opcode) false s.next
        ((s.next.setReg (rt.setWidth 32) value).setPc pc) := by
    intro value pc hw hne hrt
    have hd : designatedI rt opcode = some rt := by
      unfold designatedI
      rw [if_neg hne, if_pos hw]
    rw [hd]
    exact .setReg_setPc (fun h => hrt ((field_eq_zero rt).mpr h)) _ _
  have hlink : ∀ value pc : BitVec 32, opcode = BVAR →
      rt.setWidth 32 = BLTZAL ∨ rt.setWidth 32 = BGEZAL →
      Writes (designatedI rt opcode) false s.next ((s.next.setPc pc).setReg 31 value) := by
    intro value pc hop hrt
    have hd : designatedI rt opcode = some 31 := by
      unfold designatedI
      rw [if_pos hop, if_pos hrt]
    rw [hd]
    exact .link _ _
  unfold executeI
  dsimp only
  repeat' refine Writes.ite (fun h => ?_) fun _ => ?_
  all_goals first
    | exact .same
    | exact .setPc _
    | exact hlink _ _ ‹_› (Or.inl h)
    | exact hlink _ _ ‹_› (Or.inr h)
    | exact hwrite _ _ (by subst opcode; decide) (by subst opcode; decide) ‹_›

theorem executeJ_writes (opcode target : BitVec 32) :
    Writes (designatedJ opcode) false s.next (executeJ s opcode target).next := by
  unfold executeJ
  refine .ite (fun _ => .setPc _) fun _ => .ite (fun h => ?_) fun _ => .same
  subst h
  exact .link _ _

end Cases

/-! ## The memory a case uses -/

/-- The simulator with another memory. -/
def Sim.withMem (s : Sim) (m : Memory) : Sim := { s with mem := m }

def isLoad (opcode : BitVec 32) : Bool := opcode ∈ [LB, LH, LW, LBU, LHU]

/-- The address a load or a store computes. -/
def accessAddress (cur : CpuState) (opcode rs imm : BitVec 32) : BitVec 32 :=
  if opcode = LW ∨ opcode = SW then (cur.reg rs + extend 15 16 imm) &&& 0xFFFFFFFC
  else cur.reg rs + extend 15 16 imm

/-- The word a store writes. -/
def storeValue (opcode value : BitVec 32) : BitVec 32 :=
  if opcode = SB then value &&& 0xFF else if opcode = SH then value &&& 0xFFFF else value

/-- One more case of a switch, on two memories. -/
theorem ite_withMem {c : Prop} [Decidable c] {s₁ s₂ t₁ t₂ : Sim} {m : Memory}
    (h₁ : c → s₁ = t₁.withMem m) (h₂ : ¬ c → s₂ = t₂.withMem m) :
    (if c then s₁ else s₂) = (if c then t₁ else t₂).withMem m := by
  split
  next h => exact h₁ h
  next h => exact h₂ h

section Cases

variable (s : Sim) (m : Memory)

theorem executeR_withMem (rs rt rd shamt funct : BitVec 32) :
    executeR (s.withMem m) rs rt rd shamt funct =
      (executeR s rs rt rd shamt funct).withMem m := by
  have syscall : (if s.current.reg 2 = 0xA then
        { s.withMem m with runBit := false } else s.withMem m).assign
          (·.setPc ((s.withMem m).current.pc + 4)) =
      ((if s.current.reg 2 = 0xA then { s with runBit := false } else s).assign
        (·.setPc (s.current.pc + 4))).withMem m := by
    by_cases h : s.current.reg 2 = 0xA
    · rw [if_pos h, if_pos h]
      rfl
    · rw [if_neg h, if_neg h]
      rfl
  unfold executeR
  dsimp only
  repeat' refine ite_withMem (fun _ => ?_) fun _ => ?_
  all_goals first
    | rfl
    | exact syscall

theorem executeJ_withMem (opcode target : BitVec 32) :
    executeJ (s.withMem m) opcode target = (executeJ s opcode target).withMem m := by
  unfold executeJ
  repeat' refine ite_withMem (fun _ => ?_) fun _ => ?_
  all_goals rfl

/-- A load reads the memory at one address, a store writes it there, and nothing else
looks at it. -/
theorem executeI_withMem (opcode rs rt imm : BitVec 32)
    (hload : isLoad opcode = true →
      memRead32 memRegions m (accessAddress s.current opcode rs imm) =
        s.memRead (accessAddress s.current opcode rs imm)) :
    executeI (s.withMem m) opcode rs rt imm =
      (executeI s opcode rs rt imm).withMem
        (if isStore opcode then
          memWrite32 memRegions m (accessAddress s.current opcode rs imm)
            (storeValue opcode (s.next.reg rt))
        else m) := by
  unfold executeI
  dsimp only
  repeat' refine ite_withMem (fun h => ?_) fun _ => ?_
  all_goals try subst opcode
  all_goals first
    | (have hread : (s.withMem m).memRead (s.current.reg rs + extend 15 16 imm) =
          s.memRead (s.current.reg rs + extend 15 16 imm) := hload (by decide)
       rw [show (s.withMem m).current = s.current from rfl, hread]
       rfl)
    | (have hread : (s.withMem m).memRead ((s.current.reg rs + extend 15 16 imm) &&&
            0xFFFFFFFC) = s.memRead ((s.current.reg rs + extend 15 16 imm) &&&
            0xFFFFFFFC) := hload (by decide)
       rw [show (s.withMem m).current = s.current from rfl, hread]
       rfl)
    | rfl
    | (have hstore : isStore opcode = false := by simp [isStore, *]
       rw [hstore]
       rfl)

end Cases

/-! ## One cycle -/

/-- The word may read memory as data. -/
def readsMem (w : BitVec 32) : Bool := decodeInstrType w = .i ∧ isLoad (w >>> 26 &&& 0x3F)

/-- The word that a store finds in `NEXT_STATE`. -/
def storedWord (next : CpuState) (w : BitVec 32) : BitVec 32 :=
  storeValue (w >>> 26 &&& 0x3F) (next.regs (rt w))

section Cycle

variable {s : Sim} {w : BitVec 32}

theorem accessAddress_eq (cur : CpuState) (w : BitVec 32) :
    accessAddress cur (w >>> 26 &&& 0x3F) (w >>> 21 &&& 0x1F) (w &&& 0xFFFF) =
      effectiveAddress cur.regs w := by
  unfold accessAddress effectiveAddress
  rw [field_imm16, extend_imm16, field_rs, reg_field]

theorem dispatch_writes (s : Sim) (w : BitVec 32) :
    Writes (designated w) (changesHiLo w) s.next (dispatch (decodeInstrType w) s w).next := by
  unfold designated changesHiLo
  cases decodeInstrType w with
  | r =>
      show Writes (designatedR (rd w) (w &&& 0x3F)) _ _ (decodeR s w).next
      simp only [decodeR, field_rd, true_and, Bool.decide_eq_true]
      exact executeR_writes s _ _ (rd w) _ _
  | i =>
      show Writes (designatedI (rt w) (w >>> 26 &&& 0x3F)) _ _ (decodeI s w).next
      simp only [decodeI, field_rt]
      exact executeI_writes s _ _ (rt w) _
  | j => exact executeJ_writes s _ _

/-- A word on two memories that hold the same data where the word reads it. -/
theorem dispatch_withMem (s : Sim) (m : Memory) (w : BitVec 32)
    (hload : readsMem w = true →
      memRead32 memRegions m (effectiveAddress s.current.regs w) =
        s.memRead (effectiveAddress s.current.regs w)) :
    dispatch (decodeInstrType w) (s.withMem m) w =
      (dispatch (decodeInstrType w) s w).withMem
        (if changesMem w then
          memWrite32 memRegions m (effectiveAddress s.current.regs w) (storedWord s.next w)
        else m) := by
  rw [← accessAddress_eq] at hload ⊢
  unfold readsMem at hload
  unfold changesMem
  cases htype : decodeInstrType w with
  | r => exact executeR_withMem s m _ _ _ _ _
  | i =>
      rw [htype] at hload
      have h := executeI_withMem s m (w >>> 26 &&& 0x3F) (w >>> 21 &&& 0x1F)
        (w >>> 16 &&& 0x1F) (w &&& 0xFFFF) (by simpa using hload)
      rw [show storeValue (w >>> 26 &&& 0x3F) (s.next.reg (w >>> 16 &&& 0x1F)) =
        storedWord s.next w by rw [field_rt, reg_field]; rfl] at h
      have hchanges : decide (InstrType.i = .i ∧ isStore (w >>> 26 &&& 0x3F) = true) =
          isStore (w >>> 26 &&& 0x3F) := by simp
      rw [hchanges]
      exact h
  | j => exact executeJ_withMem s m _ _

/-- The fetched word, executed. -/
theorem processInstruction_eq (hw : s.memRead s.current.pc = w) :
    processInstruction s = dispatch (decodeInstrType w) { s with instrOpcode := w } w := by
  unfold processInstruction
  simp only [hw]
  cases decodeInstrType w <;> rfl

/-- The word of an R-type cycle, executed. -/
theorem cycle_rType (hw : s.memRead s.current.pc = w) (htype : decodeInstrType w = .r) :
    let s' := executeR { s with instrOpcode := w } ((rs w).setWidth 32) ((rt w).setWidth 32)
      ((rd w).setWidth 32) ((shamt w).setWidth 32) (w &&& 0x3F)
    cycle s = { s' with current := s'.next } := by
  unfold cycle
  rw [processInstruction_eq hw, htype]
  show (let t := decodeR _ w; ({ t with current := t.next } : Sim)) = _
  simp only [decodeR, field_rs, field_rt, field_rd, field_shamt]

theorem cycle_writes (hs : s.next = s.current) (hw : s.memRead s.current.pc = w) :
    Writes (designated w) (changesHiLo w) s.current (cycle s).current := by
  rw [← hs]
  unfold cycle
  rw [processInstruction_eq hw]
  exact dispatch_writes { s with instrOpcode := w } w

/-- A cycle on two memories that hold the same word at the program counter and, where the
word reads memory, the same data. -/
theorem cycle_withMem (hw : s.memRead s.current.pc = w) {m : Memory}
    (hm : memRead32 memRegions m s.current.pc = w)
    (hload : readsMem w = true →
      memRead32 memRegions m (effectiveAddress s.current.regs w) =
        s.memRead (effectiveAddress s.current.regs w)) :
    cycle (s.withMem m) =
      (cycle s).withMem
        (if changesMem w then
          memWrite32 memRegions m (effectiveAddress s.current.regs w) (storedWord s.next w)
        else m) := by
  have hw' : (s.withMem m).memRead (s.withMem m).current.pc = w := hm
  have h := dispatch_withMem { s with instrOpcode := w } m w hload
  unfold cycle
  rw [processInstruction_eq hw, processInstruction_eq hw']
  exact congrArg (fun t : Sim => { t with current := t.next }) h

/-- What a cycle makes of the memory. -/
theorem cycle_mem (hw : s.memRead s.current.pc = w) :
    (cycle s).mem =
      if changesMem w then
        memWrite32 memRegions s.mem (effectiveAddress s.current.regs w) (storedWord s.next w)
      else s.mem := by
  have h := cycle_withMem hw (m := s.mem) hw fun _ => rfl
  exact congrArg Sim.mem h

end Cycle

/-! ## The frame law -/

/-- What one cycle leaves alone, given the word it executes. -/
structure Frame (w : BitVec 32) (s s' : Sim) : Prop where
  next : s'.next = s'.current
  zero : s'.current.regs 0 = 0
  regs : ∀ r, s'.current.regs r ≠ s.current.regs r → designated w = some r
  hi : s'.current.hi ≠ s.current.hi → changesHiLo w = true
  lo : s'.current.lo ≠ s.current.lo → changesHiLo w = true
  mem : ∀ i offset, s'.mem i offset ≠ s.mem i offset → changesMem w = true ∧
    ∃ start, findRegion (effectiveAddress s.current.regs w) memRegions 0 = some (i, start) ∧
      (offset - (effectiveAddress s.current.regs w - start)).toNat < 4

/-- A cycle from a state with zero in register 0. -/
theorem frame_cycle {s : Sim} (hs : s.next = s.current) (hzero : s.current.regs 0 = 0) :
    Frame (s.memRead s.current.pc) s (cycle s) where
  next := rfl
  zero := by
    have hw := cycle_writes hs rfl
    by_contra h
    exact absurd rfl (hw.regs 0 (by rwa [hzero])).2
  regs r h := ((cycle_writes hs rfl).regs r h).1
  hi := (cycle_writes hs rfl).hi
  lo := (cycle_writes hs rfl).lo
  mem i offset h := by
    rw [cycle_mem rfl] at h
    split at h
    next hc =>
      refine ⟨hc, ?_⟩
      generalize effectiveAddress s.current.regs (s.memRead s.current.pc) = ea at h ⊢
      cases hfind : findRegion ea memRegions 0 with
      | none => exact absurd (congrFun (congrFun (memWrite32_of_outside hfind) i) offset) h
      | some r =>
          obtain ⟨j, start⟩ := r
          by_contra hnot
          refine h (memWrite32_byte_of_disjoint hfind fun hij => ?_)
          subst hij
          by_contra hlt
          exact hnot ⟨start, rfl, by omega⟩
    next => exact absurd rfl h

/-- Every cycle of a run keeps to the frame of the word it executes. -/
theorem frame_law {s : Sim} (hs : s.next = s.current) (hzero : s.current.regs 0 = 0) (k : Nat) :
    Frame ((cycles s k).memRead (cycles s k).current.pc) (cycles s k) (cycles s (k + 1)) := by
  induction k with
  | zero => exact frame_cycle hs hzero
  | succ k ih => exact frame_cycle ih.next ih.zero

/-- `ADDI r1, r0, -3`, `SB r1, 0x2001(r0)`, `MULT r1, r1` with 1 in the field of `rd`, and
`LW r2, 0x2000(r0)`. -/
def squareProgram : Sim :=
  loadProgram initMemory
    [(0, 0x2001FFFD), (4, 0xA0012001), (8, 0x00210818), (12, 0x8C022000)]

/-- A register, the word at the address of the store, `LO` and another register change. -/
theorem frame_law_squareProgram :
    (Frame 0x2001FFFD squareProgram (cycles squareProgram 1) ∧
      (cycles squareProgram 1).current.regs 1 = 0xFFFFFFFD) ∧
    (Frame 0xA0012001 (cycles squareProgram 1) (cycles squareProgram 2) ∧
      (cycles squareProgram 2).memRead 0x2000 = 0xFDEF) ∧
    (Frame 0x00210818 (cycles squareProgram 2) (cycles squareProgram 3) ∧
      (cycles squareProgram 3).current.lo = 9) ∧
    Frame 0x8C022000 (cycles squareProgram 3) (cycles squareProgram 4) ∧
      (cycles squareProgram 4).current.regs 2 = 0xFDEF := by
  have hframe : ∀ k w, (cycles squareProgram k).memRead (cycles squareProgram k).current.pc = w →
      Frame w (cycles squareProgram k) (cycles squareProgram (k + 1)) := by
    rintro k w rfl
    exact frame_law rfl rfl k
  exact ⟨⟨hframe 0 _ (by decide +kernel), by decide +kernel⟩,
    ⟨hframe 1 _ (by decide +kernel), by decide +kernel⟩,
    ⟨hframe 2 _ (by decide +kernel), by decide +kernel⟩,
    hframe 3 _ (by decide +kernel), by decide +kernel⟩

end SimpleCpu.Mips.Iss
