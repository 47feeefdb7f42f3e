import SimpleCpu.CoSim.HexText
import SimpleCpu.HexGen.Written
import SimpleCpu.RiscV.HexGen.Rooms
import SimpleCpu.RiscV.IssMirror
import SimpleCpu.RiscV.PipelineBench

/-!
# Replaying what has been generated

The generator executes every word as it places it.  The simulator that loads the two files
executes the same words again, one in each cycle, as long as every request finds a place and no
store goes to the text: `generated_replays`.
-/

namespace SimpleCpu.RiscV.HexGen

open SimpleCpu.Bits SimpleCpu.CoSim SimpleCpu.HexGen SimpleCpu.Iss SimpleCpu.RiscV.CoSim
open SimpleCpu.RiscV.Iss

/-! ## Files

`print_to_file` writes the words of a program and their addresses into two files, which
`load_program` reads in step. -/

/-- The file of the words that `print_to_file` writes. -/
def Gen.instrHexVal (g : Gen) : List Char := printLines (g.printToFile.map Prod.snd)

/-- The file of their addresses. -/
def Gen.pcHexVal (g : Gen) : List Char := printLines (g.printToFile.map Prod.fst)

/-- `init`, with the texts of the two files. -/
def initFiles (preload : Bool) (prog pcFile : List Char) : Option Checker :=
  (scanPairs 32 prog pcFile).map (CoSim.init preload)

/-! ## The words that are drawn -/

/-- A word of one of the `gen_` functions. -/
inductive Drawn (g : Gen) : InstrType → BitVec 32 → Prop where
  | r {rand rand' : List Nat} {a : RArgs} (h : Gen.drawR rand = .ok (a, rand')) :
      Drawn g .r a.word
  | i {rand rand' : List Nat} {a : IArgs} (h : g.drawI rand = .ok (a, rand')) :
      Drawn g .i a.word
  | s {rand rand' : List Nat} {a : SbArgs} (h : g.drawS rand = .ok (a, rand')) :
      Drawn g .s a.sWord
  | b {rand rand' : List Nat} {a : SbArgs} (h : g.drawB rand = .ok (a, rand')) :
      Drawn g .b a.bWord
  | u {rand rand' : List Nat} {a : UjArgs} (h : Gen.drawU rand = .ok (a, rand')) :
      Drawn g .u a.uWord
  | j {rand rand' : List Nat} {a : UjArgs} (h : g.drawJ rand = .ok (a, rand')) :
      Drawn g .j a.jWord

section Drawn

variable {g g' : Gen} {t : InstrType} {w : BitVec 32}

/-- The words lead to slots or out of the text. -/
theorem Drawn.leads (h : Drawn g t w) (h4 : g.cur.toNat % 4 = 0) : Leads g w := by
  cases h with
  | r h => exact leads_rWord h h4
  | i h => exact leads_iWord h h4
  | s h => exact leads_sWord h h4
  | b h => exact leads_bWord h h4
  | u h => exact leads_uWord h h4
  | j h => exact leads_jWord h h4

/-- A request makes room, and then it places a word of its format. -/
theorem request_drawn (h : g.request t = .ok g') :
    ∃ g₁ w, g.makeRoom = .ok g₁ ∧ Drawn g₁ t w ∧ Emitted g₁ w g' := by
  obtain ⟨g₁, hroom, h⟩ := bind_ok h
  have hplace : ∀ {w ls br rand}, Drawn g₁ t w →
      { g₁ with lsAddr := ls, brAddr := br, rand := rand }.emit w = .ok g' →
      ∃ g₁' w, g.makeRoom = .ok g₁' ∧ Drawn g₁' t w ∧ Emitted g₁' w g' :=
    fun hd h => ⟨g₁, _, hroom, hd, emitted_of_emit hd.leads h⟩
  cases t with
  | r =>
      obtain ⟨⟨a, rand⟩, hdraw, h⟩ := bind_ok (h : g₁.genRInstr = .ok g')
      exact hplace (.r hdraw) h
  | i =>
      obtain ⟨⟨a, rand⟩, hdraw, h⟩ := bind_ok (h : g₁.genIInstr = .ok g')
      dsimp only at h
      split at h
      next =>
          obtain ⟨g₂, hrecord, h⟩ := bind_ok h
          obtain ⟨ls, rfl⟩ := recordLs_ok hrecord
          exact hplace (.i hdraw) h
      next => exact hplace (.i hdraw) h
  | s =>
      obtain ⟨⟨a, rand⟩, hdraw, h⟩ := bind_ok (h : g₁.genSInstr = .ok g')
      obtain ⟨g₂, hrecord, h⟩ := bind_ok h
      obtain ⟨ls, rfl⟩ := recordLs_ok hrecord
      exact hplace (.s hdraw) h
  | b =>
      obtain ⟨⟨a, rand⟩, hdraw, h⟩ := bind_ok (h : g₁.genBInstr = .ok g')
      dsimp only at h
      split at h
      next =>
          obtain ⟨g₂, hrecord, h⟩ := bind_ok h
          obtain ⟨br, rfl⟩ := recordBr_ok hrecord
          exact hplace (.b hdraw) h
      next => exact hplace (.b hdraw) h
  | u =>
      obtain ⟨⟨a, rand⟩, hdraw, h⟩ := bind_ok (h : g₁.genUInstr = .ok g')
      exact hplace (.u hdraw) h
  | j =>
      obtain ⟨⟨a, rand⟩, hdraw, h⟩ := bind_ok (h : g₁.genJInstr = .ok g')
      exact hplace (.j hdraw) h

/-- The fields that `gen_r_instr` draws are in range. -/
theorem drawR_fields {rand rand' : List Nat} {a : RArgs} (h : Gen.drawR rand = .ok (a, rand')) :
    ∃ (f7 : BitVec 7) (f3 : BitVec 3),
      a.funct7 = f7.setWidth 32 ∧ a.funct3 = f3.setWidth 32 := by
  have htable : ∀ k < 10,
      let funct := functValRType.getD k 0
      0x0#32 ||| ((funct >>> 3 &&& 0x1) <<< 5) =
          ((0x0#32 ||| ((funct >>> 3 &&& 0x1) <<< 5)).setWidth 7).setWidth 32 ∧
        funct &&& 0x7 = ((funct &&& 0x7).setWidth 3).setWidth 32 := by
    decide
  unfold Gen.drawR at h
  split at h
  next functIdx rs1 rs2 rd rand =>
      obtain ⟨rfl, -⟩ := Prod.mk.inj (Except.ok.inj h)
      obtain ⟨hf7, hf3⟩ := htable _ (Nat.mod_lt functIdx (by decide))
      exact ⟨_, _, hf7, hf3⟩
  next => exact absurd h nofun

theorem drawB_fields {rand rand' : List Nat} {a : SbArgs} (h : g.drawB rand = .ok (a, rand')) :
    ∃ (f3 : BitVec 3) (n : Nat), a.funct3 = f3.setWidth 32 ∧ a.imm = drawnOffsetB n := by
  have htable : ∀ k < 6, opcodeValBType.getD k 0 ∈ opcodeValBType := by decide
  unfold Gen.drawB at h
  split at h
  next functIdx rs1 rs2 rand =>
      obtain ⟨⟨imm, rand''⟩, hdraw, h⟩ := bind_ok h
      obtain ⟨rfl, -⟩ := Prod.mk.inj (Except.ok.inj h)
      obtain ⟨n, hn⟩ := drawOffsetB_ok hdraw
      obtain ⟨fn, f, hfn, -⟩ := brnFun_of_drawn _ (htable _ (Nat.mod_lt functIdx (by decide)))
      exact ⟨fn, n, hfn, hn⟩
  next => exact absurd h nofun

theorem drawU_fields {rand rand' : List Nat} {a : UjArgs} (h : Gen.drawU rand = .ok (a, rand')) :
    ∃ op : BitVec 7, a.opcode = op.setWidth 32 ∧
      (op.setWidth 32 = Iss.LUI ∨ op.setWidth 32 = Iss.AUIPC) := by
  have htable : ∀ k < 2, opcodeValUType.getD k 0 = Iss.LUI ∨
      opcodeValUType.getD k 0 = Iss.AUIPC := by
    decide
  unfold Gen.drawU at h
  split at h
  next opcodeIdx rd imm rand =>
      obtain ⟨rfl, -⟩ := Prod.mk.inj (Except.ok.inj h)
      rcases htable _ (Nat.mod_lt opcodeIdx (by decide)) with hop | hop
      · exact ⟨0x37, hop, Or.inl rfl⟩
      · exact ⟨0x27, hop, Or.inr rfl⟩
  next => exact absurd h nofun

/-- The opcodes of `gen_i_instr`, with the codes that load. -/
theorem drawI_fields {rand rand' : List Nat} {a : IArgs} (h : g.drawI rand = .ok (a, rand')) :
    ∃ (op : BitVec 7) (f3 : BitVec 3), (op = 0x13 ∨ op = 0x03) ∧ a.opcode = op.setWidth 32 ∧
      a.funct3 = f3.setWidth 32 ∧
      (iFunct a.opcode a.funct3 ≠ LW → ¬ (iFunct a.opcode a.funct3 = LB ∨
        iFunct a.opcode a.funct3 = LH ∨ iFunct a.opcode a.funct3 = LW ∨
          iFunct a.opcode a.funct3 = LBU ∨ iFunct a.opcode a.funct3 = LHU)) := by
  have htable : ∀ k < 8,
      let opcode := ((opcodeValIType.getD k 0 >>> 4 &&& 0x1) <<< 4) ||| 0x3
      let funct3 := opcodeValIType.getD k 0 &&& 0x7
      (opcode.setWidth 7 = 0x13#7 ∨ opcode.setWidth 7 = 0x03#7) ∧
        opcode = (opcode.setWidth 7).setWidth 32 ∧ funct3 = (funct3.setWidth 3).setWidth 32 ∧
        (iFunct opcode funct3 ≠ LW → ¬ (iFunct opcode funct3 = LB ∨ iFunct opcode funct3 = LH ∨
          iFunct opcode funct3 = LW ∨ iFunct opcode funct3 = LBU ∨
            iFunct opcode funct3 = LHU)) := by
    decide
  obtain ⟨-, -, k, hk, hopcode, hfunct3⟩ := drawI_ok h
  obtain ⟨hop, hopw, hf3, hload⟩ := htable k hk
  rw [hopcode, hfunct3]
  exact ⟨_, _, hop, hopw, hf3, hload⟩

/-- Every word has the format that has been asked for. -/
theorem Drawn.format (h : Drawn g t w) : decodeInstrType w = some t := by
  cases h with
  | r h =>
      obtain ⟨f7, f3, hf7, hf3⟩ := drawR_fields h
      unfold RArgs.word
      rw [hf7, hf3]
      exact (rWord_decodesAs _ _ _ _ _).format
  | i h =>
      obtain ⟨op, f3, hop, hopw, hf3, -⟩ := drawI_fields h
      unfold IArgs.word
      rw [hopw, hf3]
      exact (iWord_decodesAs _ _ _ hop _).format
  | s h =>
      obtain ⟨imm, -, hword, -⟩ := drawS_sw h
      rw [hword]
      exact (sWord_decodesAs _ _ 2#3 _).format
  | b h =>
      obtain ⟨f3, n, hf3, himm⟩ := drawB_fields h
      unfold SbArgs.bWord
      rw [hf3, himm]
      exact (bWord_decodesAs _ _ _ (shl_and_1 _ (by decide))).format
  | u h =>
      obtain ⟨op, hop, hrow⟩ := drawU_fields h
      unfold UjArgs.uWord
      rw [hop]
      exact (uWord_decodesAs _ hrow _).format
  | j h =>
      unfold Gen.drawJ at h
      split at h
      next rd rand =>
          obtain ⟨⟨imm, rand''⟩, hdraw, h⟩ := bind_ok h
          obtain ⟨rfl, -⟩ := Prod.mk.inj (Except.ok.inj h)
          obtain ⟨-, n, rfl⟩ := drawOffsetJ_ok hdraw
          exact (jWord_decodesAs _ (drawnOffset_even n)).format
      next => exact absurd h nofun

/-! ## The data they access -/

/-- The other formats access no data. -/
theorem access_none (hw : decodeInstrType w = some t) (hi : t ≠ .i) (hs : t ≠ .s) (s : Sim) :
    access s w = none := by
  unfold access
  rw [hw]
  cases t <;> first | rfl | contradiction

/-- An address in front of the text. -/
theorem misses_text {a : BitVec 32} (ha : a.toNat < 0x2000) : Misses memRegions 0 a := by
  refine misses_of_not_contains (t := 0) rfl ?_
  rw [MemRegion.contains_iff (by decide)]
  rintro ⟨hle, -⟩
  exact absurd ha (Nat.not_lt.mpr hle)

/-- The words of `gen_i_instr` access data that has been checked, or none. -/
theorem misses_drawI {rand rand' : List Nat} {a : IArgs} (h : g.drawI rand = .ok (a, rand'))
    {s : Sim} (hs : s.current = g.sim.current) :
    ∀ x ∈ access s a.word, Misses memRegions 0 x := by
  by_cases hlw : iFunct a.opcode a.funct3 = LW
  · obtain ⟨imm, -, hword, hfine⟩ := drawI_lw h hlw
    rw [hword, access_lwWord, hs]
    rintro x hx
    obtain rfl := Option.some.inj hx
    obtain ⟨haddr, -, hlt⟩ := checkLsAddr_fine hfine
    rw [haddr, and_not_3_toNat, Gen.regs] at hlt
    exact misses_text (by omega)
  · obtain ⟨op, f3, hop, hopw, hf3, hload⟩ := drawI_fields h
    have hd := iWord_decodesAs a.rs1 a.rd f3 hop a.imm
    obtain ⟨hfield3, hfieldop, hfield1, -, hfieldi⟩ := fieldsI_append _ _ _ _ hd.noCarry
    rw [← hopw, ← hf3] at hd hfield3 hfieldop hfield1 hfieldi
    have hnone : access s a.word = none := by
      unfold access IArgs.word
      rw [hd.format]
      dsimp only
      rw [hfield3, hfieldop, hfield1, hfieldi]
      exact if_neg (hload hlw)
    rw [hnone]
    exact nofun

/-- Of the drawn words, only a store can access the text. -/
theorem Drawn.misses {s : Sim} (h : Drawn g t w) (hs : s.current = g.sim.current)
    (hstore : t = .s → ∀ a ∈ access s w, Misses memRegions 0 a) :
    ∀ a ∈ access s w, Misses memRegions 0 a := by
  by_cases hi : t = .i
  · subst hi
    cases h with
    | i h => exact misses_drawI h hs
  · by_cases ht : t = .s
    · exact hstore ht
    · rw [access_none h.format hi ht]
      exact nofun

end Drawn

/-! ## One word -/

/-- The memory holds what the generator has recorded, and the data of `init_memory`. -/
structure Loads (preload : Bool) (g : Gen) (m : Memory) : Prop where
  data : SameOutside 0 (initMemory preload).mem m
  text : ∀ i, g.pc i = true → memRead32 memRegions m (i + memTextStart) = g.instr i

/-- The simulator that starts with another memory. -/
def startWith (preload : Bool) (m : Memory) : Sim := { initMemory preload with mem := m }

/-- As many cycles as there are words lead to the state of the generator. -/
structure Replays (preload : Bool) (g : Gen) (m : Memory) : Prop where
  mirrors : Mirrors g.sim (cycles (startWith preload m) g.printToFile.length)
  text : (cycles (startWith preload m) g.printToFile.length).mem 0 = m 0

/-- The taken slots are slots of the text. -/
def SlotsIn (g : Gen) : Prop := ∀ i, g.pc i = true → IsSlot (i + memTextStart)

section Placed

variable {preload : Bool} {g g' : Gen} {w : BitVec 32} {m : Memory}

theorem Loads.kept (h : Loads preload g' m) (hkept : WordsKept g g') : Loads preload g m where
  data := h.data
  text i hi := (h.text i (hkept.used i hi)).trans (hkept.word i hi)

theorem Placed.slotsIn (hp : Placed g w g.cur g') (hslot : IsSlot g.cur) (h : SlotsIn g) :
    SlotsIn g' := by
  intro i hi
  rw [hp.pc] at hi
  by_cases hne : i = g.cur - memTextStart
  · rw [hne, BitVec.sub_add_cancel]
    exact hslot
  · rw [Function.update_of_ne hne] at hi
    exact h i hi

theorem IsSlot.mem_fileIndices {i : BitVec 32} (h : IsSlot (i + memTextStart)) :
    i ∈ fileIndices := by
  have hbound := h.bound
  rw [BitVec.add_sub_cancel] at hbound
  have hlt : i.toNat < 0x2000 := hbound
  have h4 := h.aligned
  rw [BitVec.toNat_add, show memTextStart.toNat = 0x2000 from rfl] at h4
  exact HexGen.mem_fileIndices hlt (by omega)

theorem IsSlot.mem_slot (h : IsSlot g.cur) : g.slot ∈ fileIndices := by
  refine IsSlot.mem_fileIndices ?_
  unfold Gen.slot
  rw [BitVec.sub_add_cancel]
  exact h

/-- One line for each taken slot. -/
theorem printToFile_eq (g : Gen) :
    g.printToFile = (fileIndices.filter g.pc).map fun i => (i + memTextStart, g.instr i) := by
  unfold Gen.printToFile
  exact filterMap_fileIndices g.pc fun i => (i + memTextStart, g.instr i)

/-- A word at a free slot makes one line more. -/
theorem Placed.length_eq (hp : Placed g w g.cur g') (hslot : IsSlot g.cur)
    (hfree : g.pc g.slot = false) : g'.printToFile.length = g.printToFile.length + 1 := by
  have hmem : g.slot ∈ fileIndices := hslot.mem_slot
  rw [printToFile_eq, printToFile_eq, List.length_map, List.length_map,
    ← List.countP_eq_length_filter, ← List.countP_eq_length_filter, hp.pc]
  exact countP_update fileIndices_nodup hmem hfree

/-- Whatever else the text holds, the word is executed where it was placed. -/
theorem Placed.replays (hp : Placed g w g.cur g') (hslot : IsSlot g.cur)
    (hfree : g.pc g.slot = false) (hdata : ∀ a ∈ access g.sim w, Misses memRegions 0 a)
    (hm : Loads preload g' m) (h : Replays preload g m) : Replays preload g' m := by
  obtain ⟨hmirror, htext⟩ := h
  have hread : (cycles (startWith preload m) g.printToFile.length).memRead
      (cycles (startWith preload m) g.printToFile.length).current.pc = w := by
    have hword := hm.text g.slot (by rw [hp.pc]; exact Function.update_self ..)
    rw [hp.instr] at hword
    rw [hmirror.current]
    refine (memRead32_region hslot.find htext).trans ?_
    have hcur : g.slot + memTextStart = g.sim.current.pc := BitVec.sub_add_cancel ..
    rw [hcur] at hword
    exact hword.trans (Function.update_self ..)
  have hload := hmirror.load (v := w) hslot.find
  obtain ⟨hcycle, hkeep⟩ := hload.cycle (memRead32_memWrite32 hslot.find) hread hdata
  constructor
  · rw [hp.length_eq hslot hfree, hp.sim]
    exact hcycle
  · rw [hp.length_eq hslot hfree]
    exact hkeep.trans htext

end Placed

/-! ## Runs -/

/-- The request finds a place, and its store does not go to the text. -/
structure Clean (g : Gen) (t : InstrType) (g' : Gen) : Prop where
  place : HasPlace g
  store : t = .s → ∀ g₁, g.makeRoom = .ok g₁ →
    ∀ a ∈ access g₁.sim (g'.instr g₁.slot), Misses memRegions 0 a

/-- Clean requests one after the other, with any numbers drawn. -/
inductive CleanSteps (g : Gen) : Gen → Prop where
  | refl : CleanSteps g g
  | draw {g₁ : Gen} (rand : List Nat) : CleanSteps g g₁ → CleanSteps g { g₁ with rand := rand }
  | request {g₁ g₂ : Gen} {t : InstrType} : CleanSteps g g₁ → g₁.request t = .ok g₂ →
      Clean g₁ t g₂ → CleanSteps g g₂

/-- What holds between two requests. -/
structure Replaying (preload : Bool) (g : Gen) : Prop where
  between : Between g
  slotsIn : SlotsIn g
  replays : ∀ m, Loads preload g m → Replays preload g m

section Runs

variable {preload : Bool} {g g' g₁ : Gen} {rand : List Nat} {t : InstrType}

theorem CleanSteps.steps (h : CleanSteps g g') : Steps HasPlace g g' := by
  induction h with
  | refl => exact .refl
  | draw rand _ ih => exact ih.draw rand
  | request _ hreq hclean ih => exact ih.request hclean.place hreq

theorem CleanSteps.reachable (h : CleanSteps (init preload rand) g) : Reachable g :=
  Reachable.steps ⟨preload, rand, .refl⟩ h.steps

theorem replaying_init (preload : Bool) (rand : List Nat) :
    Replaying preload (init preload rand) where
  between := (CleanSteps.refl (g := init preload rand)).reachable.between
  slotsIn := nofun
  replays m hm := by
    have hlength : (init preload rand).printToFile.length = 0 := by
      rw [printToFile_eq, List.length_map, List.length_eq_zero_iff, List.filter_eq_nil_iff]
      exact fun i _ => Bool.false_ne_true
    constructor
    · rw [hlength]
      exact ⟨rfl, rfl, rfl, hm.data⟩
    · rw [hlength]
      rfl

/-- Drawing a number changes nothing. -/
theorem Replaying.withRand (hr : Replaying preload g) (rand : List Nat) :
    Replaying preload { g with rand := rand } where
  between := ⟨hr.between.prev, hr.between.onSlot, hr.between.first⟩
  slotsIn := hr.slotsIn
  replays m hm := by
    obtain ⟨hmirror, htext⟩ := hr.replays m ⟨hm.data, hm.text⟩
    have hfile : { g with rand := rand }.printToFile = g.printToFile := by
      rw [printToFile_eq, printToFile_eq]
    rw [← hfile] at hmirror htext
    exact ⟨hmirror, htext⟩

/-- A word that is emitted between requests is recorded where it is. -/
theorem Emitted.placed_cur {w : BitVec 32} (he : Emitted g w g') (hb : Between g) :
    Placed g w g.cur g' := by
  have hcur : (if g.instrGen = 0 then memTextStart else g.prevPc) = g.cur := by
    split
    next h0 => exact (hb.first h0).1.symm
    next => exact hb.prev
  exact hcur ▸ he.placed

/-- One word. -/
theorem Placed.replaying {w : BitVec 32} (hp : Placed g w g.cur g') (hb : Between g')
    (hslot : IsSlot g.cur) (hfree : g.pc g.slot = false)
    (hdata : ∀ a ∈ access g.sim w, Misses memRegions 0 a) (hr : Replaying preload g) :
    Replaying preload g' where
  between := hb
  slotsIn := hp.slotsIn hslot hr.slotsIn
  replays m hm := hp.replays hslot hfree hdata hm
    (hr.replays m (hm.kept (wordsKept_of_update hfree hp.pc hp.instr)))

/-- `make_room` places a jump, which accesses no data. -/
theorem makeRoom_replaying (hr : Replaying preload g) (hplace : HasPlace g)
    (h : g.makeRoom = .ok g₁) : Replaying preload g₁ := by
  have hb₁ := hr.between.makeRoom h
  obtain ⟨hcur, -⟩ := makeRoom_cases hr.between h
  rcases Gen.makeRoom_ok h with ⟨-, rfl⟩ | ⟨i, n, -, hfound, hp, -⟩
  · exact hr
  · rw [hr.between.prev] at hp
    obtain ⟨hmem, -, -, hi, -⟩ := Slots.find_ok hfound
    obtain ⟨-, heven⟩ := slot_distance (isSlot_of_index hi (mem_roomIndices hmem).1) hcur
    refine hp.replaying hb₁ hcur hplace.1 (fun a ha => ?_) hr
    rw [access_none (genJ_decodesAs heven n).format nofun nofun] at ha
    exact absurd ha nofun

theorem request_replaying (hr : Replaying preload g) (h : g.request t = .ok g')
    (hclean : Clean g t g') : Replaying preload g' := by
  obtain ⟨hb', -⟩ := request_placed hr.between h
  obtain ⟨g₁, w, hroom, hd, he⟩ := request_drawn h
  have hp := he.placed_cur (hr.between.makeRoom hroom)
  have hslot := makeRoom_isSlot hr.between hroom
  have hmade := (makeRoom_madeRoom_iff hr.between hroom).mpr hclean.place
  have hr₁ := makeRoom_replaying hr hclean.place hroom
  refine hp.replaying hb' hslot hmade.current (hd.misses rfl fun ht => ?_) hr₁
  have hword : g'.instr g₁.slot = w := by
    rw [hp.instr]
    exact Function.update_self ..
  rw [← hword]
  exact hclean.store ht g₁ hroom

theorem CleanSteps.replaying (h : CleanSteps (init preload rand) g) : Replaying preload g := by
  induction h with
  | refl => exact replaying_init preload rand
  | draw rand _ ih => exact ih.withRand rand
  | request _ hreq hclean ih => exact request_replaying ih hreq hclean

end Runs

/-! ## The program that is written -/

section Files

variable {preload : Bool} {g g₁ : Gen} {rand : List Nat}

/-- The two files, loaded, hold what has been recorded. -/
theorem printToFile_loads (hin : SlotsIn g) :
    Loads preload g (loadMem memRegions (initMemory preload).mem g.printToFile) := by
  have hwords : ∀ p ∈ g.printToFile, IsSlot p.1 ∧ p.2 = g.instr (p.1 - memTextStart) := by
    intro p hp
    rw [printToFile_eq] at hp
    obtain ⟨i, hi, rfl⟩ := List.mem_map.mp hp
    obtain ⟨-, hused⟩ := List.mem_filter.mp hi
    refine ⟨hin i hused, ?_⟩
    rw [BitVec.add_sub_cancel]
  have hregion : ∀ {a}, IsSlot a → InRegion memRegions a := fun ha =>
    ⟨(and_3_eq_zero_iff _).mpr ha.aligned, _, ha.find⟩
  constructor
  · exact sameOutside_loadMem (fun p hp => ⟨_, (hwords p hp).1.find⟩) _
  · intro i hi
    have hmem : i + memTextStart ∈ g.printToFile.map Prod.fst := by
      rw [printToFile_eq, List.map_map]
      exact List.mem_map.mpr ⟨i, List.mem_filter.mpr ⟨(hin i hi).mem_fileIndices, hi⟩, rfl⟩
    rw [loadMem_part (f := fun a => g.instr (a - memTextStart))
      (fun p hp => hregion (hwords p hp).1) (fun p hp => (hwords p hp).2) (hregion (hin i hi))
      hmem, BitVec.add_sub_cancel]

theorem init_sim (preload : Bool) (words : List (BitVec 32 × BitVec 32)) :
    (CoSim.init preload words).sim =
      startWith preload (loadMem memRegions (initMemory preload).mem words) :=
  loadProgram_eq _ _

/-- The simulator that loads the files of a clean run goes through all its states, one word
in a cycle. -/
theorem generated_replays (h : CleanSteps (init preload rand) g) :
    ∃ c, initFiles preload g.instrHexVal g.pcHexVal = some c ∧
      ∀ g₁, CleanSteps (init preload rand) g₁ → CleanSteps g₁ g →
        Mirrors g₁.sim (cycles c.sim g₁.printToFile.length) := by
  have hscan := (pairs_printLines g.printToFile).1
  refine ⟨CoSim.init preload g.printToFile, ?_, fun g₁ h₁ hrest => ?_⟩
  · unfold initFiles Gen.instrHexVal Gen.pcHexVal
    rw [hscan]
    rfl
  · have hkept := steps_wordsKept h₁.reachable hrest.steps
    rw [init_sim]
    exact (h₁.replaying.replays _ ((printToFile_loads h.replaying.slotsIn).kept hkept)).mirrors

/-- An `ADD`, a branch over a slot, a branch back to it, the jump that makes room, and a store. -/
theorem generated_replays_back :
    let rand := [3, 1, 2, 3, 0, 0, 0, 2, 0, 0, 0, 2047, 0, 0, 0, 0, 4]
    ∃ g g' c, CleanSteps (init false rand) g ∧ g.request .s = .ok g' ∧ g'.slot ≠ g.slot + 4 ∧
      initFiles false g'.instrHexVal g'.pcHexVal = some c ∧ Mirrors g'.sim (cycles c.sim 5) := by
  intro rand
  have hrun : (do
      let g₁ ← (init false rand).request .r
      let g₂ ← g₁.request .b
      let g₃ ← g₂.request .b
      let g₄ ← g₃.makeRoom
      let g₅ ← g₃.request .s
      return (((g₁.freeAhead && g₂.freeAhead) && g₃.freeAhead) &&
        (access g₄.sim (g₅.instr g₄.slot) == some 4 && g₅.slot != g₃.slot + 4)) &&
          g₅.printToFile.length == 5).toOption.any id = true := by
    decide +kernel
  obtain ⟨b, hb, hcheck⟩ := exists_of_any hrun
  obtain ⟨g₁, h₁, hb⟩ := bind_ok hb
  obtain ⟨g₂, h₂, hb⟩ := bind_ok hb
  obtain ⟨g₃, h₃, hb⟩ := bind_ok hb
  obtain ⟨g₄, h₄, hb⟩ := bind_ok hb
  obtain ⟨g₅, h₅, hb⟩ := bind_ok hb
  obtain rfl := Except.ok.inj hb
  simp only [id, Bool.and_eq_true, beq_iff_eq, bne_iff_ne] at hcheck
  obtain ⟨⟨⟨⟨hfree₁, hfree₂⟩, hfree₃⟩, haccess, hslot⟩, hlength⟩ := hcheck
  have hclean : CleanSteps (init false rand) g₃ :=
    ((CleanSteps.refl.request h₁ ⟨⟨rfl, .inl rfl⟩, nofun⟩).request h₂
      ⟨hasPlace_of_freeAhead hfree₁, nofun⟩).request h₃ ⟨hasPlace_of_freeAhead hfree₂, nofun⟩
  have hstore : Clean g₃ .s g₅ := by
    refine ⟨hasPlace_of_freeAhead hfree₃, fun _ g hroom a ha => ?_⟩
    obtain rfl := Except.ok.inj (h₄.symm.trans hroom)
    rw [haccess] at ha
    obtain rfl := Option.some.inj ha
    exact misses_text (by decide)
  have hsteps := hclean.request h₅ hstore
  obtain ⟨c, hc, hreplay⟩ := generated_replays hsteps
  refine ⟨g₃, g₅, c, hclean, h₅, hslot, hc, ?_⟩
  rw [← hlength]
  exact hreplay g₅ hsteps .refl

end Files

end SimpleCpu.RiscV.HexGen
