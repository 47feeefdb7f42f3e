import SimpleCpu.Iss.Lanes
import SimpleCpu.Mips.Access
import SimpleCpu.Mips.Refinement

/-!
# Upper immediates, bytes and halves in the MIPS pipeline

The control table gives `LUI` and the loads of bytes and halves the row of `LW`, and the
stores of bytes and halves the row of `SW`.  Nothing behind it selects, merges or extends a
part of a word.

* `cycle_writer`, `cycle_store`: what the simulator does.
* `retiring_regs`, `retiring_read`: what the pipeline does.
* `subWord_iff`: where these are the same.
-/

namespace SimpleCpu.Mips

open SimpleCpu.Bits SimpleCpu.Iss SimpleCpu.Rtl SimpleCpu.Mips.Isa SimpleCpu.Mips.Iss

/-! ## The instructions -/

/-- The sum of the base register and the offset. -/
def Isa.dataAddress (regs : BitVec 5 → Word) (w : Word) : Word :=
  regs (rs w) + (imm16 w).signExtend 32

namespace Isa

/-- Words that share a control row with `LW` or `SW`. -/
inductive SubWord where
  | lui
  | load (x : LoadOp)
  | store (x : StoreOp)
  deriving DecidableEq, Repr

def subWord (opcode : BitVec 6) : Option SubWord :=
  if opcode = 0xF then some .lui
  else if opcode = 0x20 then some (.load .lb)
  else if opcode = 0x21 then some (.load .lh)
  else if opcode = 0x24 then some (.load .lbu)
  else if opcode = 0x25 then some (.load .lhu)
  else if opcode = 0x28 then some (.store .sb)
  else if opcode = 0x29 then some (.store .sh)
  else none

namespace SubWord

/-- The control word that they share. -/
def controls : SubWord → Controls
  | .lui | .load _ => (Instr.lw 0 0 0).controls
  | .store _ => (Instr.sw 0 0 0).controls

/-- The bytes that are loaded or stored lie in the region. -/
def InRegion (r : MemRegion) (a : Word) : SubWord → Prop
  | .lui => True
  | .load x => r.HoldsBytes a x.size
  | .store x => r.HoldsBytes a x.size

instance (r : MemRegion) (a : Word) (x : SubWord) : Decidable (x.InRegion r a) :=
  match x with
  | .lui => inferInstanceAs (Decidable True)
  | .load _ | .store _ => inferInstanceAs (Decidable (r.HoldsBytes _ _))

/-- The words at and behind the address, as they are before the instruction, make up for
the logic that is missing. -/
def Fits (r : MemRegion) (w : Word) (regs : BitVec 5 → Word) (read : Word → Word)
    (a : Word) : SubWord → Prop
  | .lui => rt w = 0 ∨ read a = (imm16 w).setWidth 32 <<< 16
  | .load x => rt w = 0 ∨ x.Fits (read (wordOf a)) (read (wordOf a + 4)) (a.toNat % 4)
  | .store x =>
      x.Fits (regs (rt w)) (read (wordOf a)) (read (wordOf a + 4)) (a.toNat % 4)
        (r.HoldsByte (wordOf a + 4))

end SubWord

/-- The rows of the outer table, and that none of the opcodes links. -/
theorem subWord_row : ∀ o : BitVec 6, ∀ x ∈ subWord o,
    (o ≠ 0 ∧ (controlRow o).map Controls.ofBits = some x.controls) ∧
      (o == 0) = false ∧ (o == Defines.BVAR) = false ∧ (o == Defines.JAL) = false := by
  decide +kernel

/-- The opcodes as the simulator groups them. -/
theorem subWord_cases {o : BitVec 6} {x : SubWord} (h : subWord o = some x) :
    o = 0xF ∧ x = .lui ∨ (∃ y, y ≠ .lw ∧ loadOp o = some y ∧ x = .load y) ∨
      ∃ y, y ≠ .sw ∧ storeOp o = some y ∧ x = .store y := by
  unfold subWord at h
  split_ifs at h with h1 h2 h3 h4 h5 h6 h7
  · exact .inl ⟨h1, (Option.some.inj h).symm⟩
  · exact .inr (.inl ⟨.lb, by decide, by rw [h2]; rfl, (Option.some.inj h).symm⟩)
  · exact .inr (.inl ⟨.lh, by decide, by rw [h3]; rfl, (Option.some.inj h).symm⟩)
  · exact .inr (.inl ⟨.lbu, by decide, by rw [h4]; rfl, (Option.some.inj h).symm⟩)
  · exact .inr (.inl ⟨.lhu, by decide, by rw [h5]; rfl, (Option.some.inj h).symm⟩)
  · exact .inr (.inr ⟨.sb, by decide, by rw [h6]; rfl, (Option.some.inj h).symm⟩)
  · exact .inr (.inr ⟨.sh, by decide, by rw [h7]; rfl, (Option.some.inj h).symm⟩)

end Isa

/-! ## The simulator -/

section Simulator

variable {sim : Sim} {w : Word}

/-- `LUI` writes the immediate to the upper half. -/
theorem cycle_lui (hs : sim.next = sim.current) (hw : sim.memRead sim.current.pc = w)
    (hop : op w = 0xF) (hrt : rt w ≠ 0) :
    cycle sim = sim.loaded w ((imm16 w).setWidth 32 <<< 16) := by
  have htype : decodeInstrType w = .i := by
    rw [decodeInstrType_eq, hop]
    rfl
  have hrt' : (rt w).setWidth 32 ≠ (0 : Word) := mt (field_eq_zero (rt w)).mp hrt
  refine cycle_of_dispatch hw htype ?_
  show decodeI _ w = _
  simp only [decodeI, field_op, field_rs, field_rt, field_imm16, hop]
  refine (if_neg hrt').trans ?_
  simp only [Sim.assign, CpuState.setPc, setReg_field, hs]

/-- A word that designates register 0 writes no register. -/
theorem cycle_rt_zero (hs : sim.next = sim.current) (hw : sim.memRead sim.current.pc = w)
    {x : SubWord} (hx : subWord (op w) = some x) (hrt : rt w = 0) :
    (cycle sim).current.regs = sim.current.regs := by
  have hrow : ∀ o : BitVec 6, ∀ x ∈ subWord o, ¬ o = 0 ∧ ¬ (o = 2 ∨ o = 3) := by
    decide +kernel
  have hbvar : ∀ o : BitVec 6, ∀ x ∈ subWord o, o.setWidth 32 ≠ BVAR := by
    decide +kernel
  obtain ⟨h0, h23⟩ := hrow _ _ hx
  have htype : decodeInstrType w = .i := by
    rw [decodeInstrType_eq, if_neg h0, if_neg h23]
  funext r
  by_contra hne
  obtain ⟨hdes, hr⟩ := (cycle_writes hs hw).regs r hne
  unfold designated designatedI at hdes
  rw [htype, field_op, hrt] at hdes
  dsimp only at hdes
  rw [if_neg (hbvar _ _ hx)] at hdes
  split at hdes
  · exact hr (Option.some.inj hdes).symm
  · exact Option.some_ne_none r hdes.symm

/-- The memory after a word that is no store. -/
theorem cycle_mem_writer (hw : sim.memRead sim.current.pc = w) {x : SubWord}
    (hx : subWord (op w) = some x) (hwr : x.controls.regWr = true) :
    (cycle sim).mem = sim.mem := by
  have hrow : ∀ o : BitVec 6, ∀ x ∈ subWord o, x.controls.regWr = true →
      isStore (o.setWidth 32) = false := by
    decide +kernel
  have hchange : changesMem w = false := by
    unfold changesMem
    rw [field_op, hrow _ _ hx hwr]
    simp
  rw [cycle_mem hw, hchange]
  rfl

end Simulator

/-! ## The pipeline -/

section Pipeline

variable {iss : IssPipeReg} {x : SubWord} (hx : subWord (op iss.instr) = some x)

include hx

theorem issueStage_subWord :
    control (op iss.instr) (funct iss.instr) = x.controls ∧
      (issueStage false iss).useLinkReg = false := by
  obtain ⟨hrow, h0, hbvar, hjal⟩ := subWord_row _ _ hx
  refine ⟨controlTable_of_row _ _ hrow, ?_⟩
  show (decode iss.instr).useLinkReg = false
  have hr : (decode iss.instr).isRType = false := by
    show (op iss.instr == 0 && _) = false
    rw [h0, Bool.false_and]
  show ((op iss.instr == Defines.BVAR && _) || ((decode iss.instr).isRType && _) ||
    (_ && op iss.instr == Defines.JAL)) = false
  rw [hbvar, hjal, hr]
  simp

/-- All of them add the offset to the base register. -/
theorem alu_subWord (a b : Word) :
    ((issueStage false iss).alu a b).res = a + (imm16 iss.instr).signExtend 32 := by
  obtain ⟨hctl, -⟩ := issueStage_subWord hx
  have hop : (issueStage false iss).aluOp = Mips.aluOp .add := by
    refine (congrArg Controls.aluOp hctl).trans ?_
    cases x <;> rfl
  have hsrc : (issueStage false iss).aluSrc = 0b001 := by
    refine (congrArg Controls.aluSrc hctl).trans ?_
    cases x <;> rfl
  have himm : (issueStage false iss).signImm = (imm16 iss.instr).signExtend 32 := by
    refine (congrArg (fun c => (decode iss.instr).signImm c.signExt) hctl).trans ?_
    cases x <;> rfl
  unfold IssueOut.alu
  rw [hop, hsrc, himm]
  exact alu_aluOp _ _ .add

theorem issueStage_rs : (issueStage false iss).rs = rs iss.instr := by
  obtain ⟨hctl, -⟩ := issueStage_subWord hx
  refine (congrArg (decode iss.instr).readReg1 hctl).trans ?_
  cases x <;> rfl

theorem issueStage_rd (hwr : x.controls.regWr = true) :
    (issueStage false iss).rd = rt iss.instr := by
  obtain ⟨hctl, hlink⟩ := issueStage_subWord hx
  refine (congrArg (decode iss.instr).writeReg hctl).trans ?_
  have hlink' : (decode iss.instr).useLinkReg = false := hlink
  unfold Decode.writeReg
  rw [hlink']
  cases x with
  | lui | load => rfl
  | store => exact absurd hwr Bool.false_ne_true

end Pipeline

/-! ## Side by side -/

/-- The data region of the simulator. -/
def dataRegion : MemRegion where
  start := 0x2000
  size := 0x100000

theorem dataRegion_mem : dataRegion ∈ memRegions :=
  List.mem_cons_of_mem _ List.mem_cons_self

theorem dataRegion_wordAligned : dataRegion.WordAligned := ⟨by decide, by decide⟩

/-- The word is in the execute stage of the pipeline and is the next one of the simulator,
and once the older instructions have passed the registers and the data are the same. -/
structure InExecute (imem : Word → Word) (w : Word) (s : Top) (sim : Sim) : Prop where
  issued : ∃ iss : IssPipeReg, iss.instr = w ∧ s.ex.toIssueOut = issueStage false iss
  operand1 : s.rDataP1 = sim.current.regs s.ex.rs
  operand2 : s.rDataP2 = sim.current.regs s.ex.rt
  regs : ((s.clock imem false).clock imem false).regFile = sim.current.regs
  data : SameWords memRegions dataRegion sim.mem (dataMemRead (s.clock imem false).dmem)
  next : sim.next = sim.current
  zero : sim.current.regs 0 = 0
  word : sim.memRead sim.current.pc = w

/-- When the word leaves the pipeline, the registers and the data are those of the
simulator after its cycle. -/
structure SameEffect (imem : Word → Word) (s : Top) (sim : Sim) : Prop where
  regs : ((s.clock imem false).clock imem false).regFileNext = (cycle sim).current.regs
  data : SameWords memRegions dataRegion (cycle sim).mem
    (dataMemRead ((s.clock imem false).clock imem false).dmem)

section Effects

variable {imem : Word → Word} {w : Word} {s : Top} {sim : Sim} {x : SubWord}
  (hx : subWord (op w) = some x) (h : InExecute imem w s sim)

include hx h

/-- The execute stage adds up the address. -/
theorem InExecute.address :
    (s.ex.alu s.rDataP1 s.rDataP2).res = dataAddress sim.current.regs w := by
  obtain ⟨iss, rfl, hex⟩ := h.issued
  rw [h.operand1, hex, alu_subWord hx, issueStage_rs hx]
  rfl

/-- Two clocks later the word is in the write-back stage. -/
theorem InExecute.wb :
    let wb := ((s.clock imem false).clock imem false).wb
    wb.regWr = x.controls.regWr ∧ wb.useLinkReg = false ∧
      wb.memToReg = x.controls.memToReg ∧ (x.controls.regWr = true → wb.rd = rt w) ∧
      wb.readData = dataMemRead (s.clock imem false).dmem (dataAddress sim.current.regs w) := by
  have haddr := h.address hx
  obtain ⟨iss, rfl, hex⟩ := h.issued
  obtain ⟨hctl, hlink⟩ := issueStage_subWord hx
  refine ⟨?_, ?_, ?_, fun hwr => ?_, ?_⟩
  · show s.ex.regWr = _
    rw [hex]
    exact congrArg Controls.regWr hctl
  · show s.ex.useLinkReg = false
    rw [hex, hlink]
  · show s.ex.memToReg = _
    rw [hex]
    exact congrArg Controls.memToReg hctl
  · show s.ex.rd = _
    rw [hex, issueStage_rd hx hwr]
  · show dataMemRead _ (s.ex.alu s.rDataP1 s.rDataP2).res = _
    rw [haddr]

/-- Only a store changes the memory on the way. -/
theorem InExecute.dmem :
    ((s.clock imem false).clock imem false).dmem =
      dataMemWrite (s.clock imem false).dmem x.controls.memWr
        (dataAddress sim.current.regs w) (sim.current.regs (rt w)) := by
  have haddr := h.address hx
  obtain ⟨iss, rfl, hex⟩ := h.issued
  obtain ⟨hctl, -⟩ := issueStage_subWord hx
  have hwr : (issueStage false iss).memWr = x.controls.memWr := congrArg Controls.memWr hctl
  show dataMemWrite _ s.ex.memWr (s.ex.alu s.rDataP1 s.rDataP2).res s.rDataP2 = _
  rw [haddr, h.operand2, hex, hwr]
  rfl

/-- A word that writes a register writes the whole word of memory at its address. -/
theorem InExecute.regs_writer (hwr : x.controls.regWr = true) :
    ((s.clock imem false).clock imem false).regFileNext =
      writeReg sim.current.regs (rt w)
        (dataMemRead (s.clock imem false).dmem (dataAddress sim.current.regs w)) := by
  have hload : x.controls.memToReg = true := by
    cases x with
    | lui | load => rfl
    | store => exact absurd hwr Bool.false_ne_true
  obtain ⟨hen, hlink, hmem, hrd, hread⟩ := h.wb hx
  rw [hwr] at hen
  rw [hload] at hmem
  have hdata : ((s.clock imem false).clock imem false).wb.wrData =
      if rt w ≠ 0 then
        dataMemRead (s.clock imem false).dmem (dataAddress sim.current.regs w) else 0 := by
    unfold WbPipeReg.wrData wrDataRf
    rw [hlink, hmem, hrd hwr, hread]
    rfl
  rw [Top.regFileNext, hen, hrd hwr, hdata, h.regs, Bool.true_or, if_pos rfl]
  exact update_eq_writeReg h.zero _ _

/-- A store writes no register. -/
theorem InExecute.regs_store (hwr : x.controls.regWr = false) :
    ((s.clock imem false).clock imem false).regFileNext = sim.current.regs := by
  obtain ⟨hen, hlink, -⟩ := h.wb hx
  rw [Top.regFileNext, hen, hlink, hwr, Bool.or_false, if_neg Bool.false_ne_true, h.regs]

end Effects

/-- The data region lies inside the array of the pipeline. -/
theorem dataMemRead_write {dmem : Dmem} {a b : Word} (ha : dataRegion.HoldsByte a)
    (hb : b &&& 3 = 0) (v : Word) :
    dataMemRead (dataMemWrite dmem true a v) b =
      Function.update (dataMemRead dmem) (wordOf a) v b := by
  have hword := dataRegion_wordAligned.word ha
  have hinside : dataMemIndex 0x2000 (wordOf a) ≤ 0x100000#32 >>> 2 := by
    refine pipelineLayout.data_inside _ ?_ ?_
    · exact hword.1
    · have hhigh := hword.2
      show (wordOf a).toNat < 0x102000
      have hsize : dataRegion.size.toNat = 0x100000 := rfl
      have hstart : dataRegion.start.toNat = 0x2000 := rfl
      omega
  rw [← dataMemWrite_align]
  refine (dataMemReadAt_write (and_not_3_aligned a) hb hinside v).trans ?_
  rw [Function.update_apply]
  rfl

section Agreement

variable {imem : Word → Word} {w : Word} {s : Top} {sim : Sim}

/-- For a word that writes a register it is the value that matters. -/
theorem sameEffect_writer_iff {x : SubWord} (hx : subWord (op w) = some x)
    (h : InExecute imem w s sim) (hwr : x.controls.regWr = true) {value : Word}
    (hvalue : rt w ≠ 0 → cycle sim = sim.loaded w value) :
    SameEffect imem s sim ↔ rt w = 0 ∨
      dataMemRead (s.clock imem false).dmem (dataAddress sim.current.regs w) = value := by
  have hregs : (cycle sim).current.regs = writeReg sim.current.regs (rt w) value := by
    by_cases hrt : rt w = 0
    · rw [cycle_rt_zero h.next h.word hx hrt, writeReg, if_pos hrt]
    · rw [hvalue hrt, writeReg, if_neg hrt]
      rfl
  have hmemWr : x.controls.memWr = false := by
    cases x with
    | lui | load => rfl
    | store => exact absurd hwr Bool.false_ne_true
  have hdmem : ((s.clock imem false).clock imem false).dmem = (s.clock imem false).dmem := by
    rw [h.dmem hx, hmemWr]
    exact dataMemWriteAt_false _ _
  rw [← writeReg_inj_iff, ← h.regs_writer hx hwr, ← hregs]
  constructor
  · exact SameEffect.regs
  · intro heq
    refine ⟨heq, ?_⟩
    rw [hdmem, cycle_mem_writer h.word hx hwr]
    exact h.data

/-- A load of a part of a word. -/
theorem sameEffect_load_iff {y : LoadOp} (hx : subWord (op w) = some (.load y))
    (hy : y ≠ .lw) (hload : loadOp (op w) = some y) (h : InExecute imem w s sim)
    (hin : dataRegion.HoldsBytes (dataAddress sim.current.regs w) y.size) :
    SameEffect imem s sim ↔ (SubWord.load y).Fits dataRegion w sim.current.regs
      (dataMemRead (s.clock imem false).dmem) (dataAddress sim.current.regs w) := by
  have haddr : loadAddress sim.current.regs w y = dataAddress sim.current.regs w := by
    cases y with
    | lw => exact absurd rfl hy
    | lb | lh | lbu | lhu => rfl
  have hvalue := fun hrt => load_exact h.next h.word hload hrt
    (by rw [haddr]; exact ⟨_, dataRegion_mem, hin⟩)
  rw [haddr] at hvalue
  rw [sameEffect_writer_iff hx h rfl hvalue]
  refine or_congr_right ?_
  have hregions : WellFormed memRegions := Simulator.memRegions_wellFormed .mips
  have hfirst := hin.first y.size_pos
  have hsize4 : y.size ≤ 4 := by cases y <;> decide
  -- the bytes of the simulator, in the words of the pipeline
  have hbytes : y.result (bytesAt memRegions sim.mem (dataAddress sim.current.regs w)) =
      y.result (lane (dataMemRead (s.clock imem false).dmem
          (wordOf (dataAddress sim.current.regs w)))
        (dataMemRead (s.clock imem false).dmem (wordOf (dataAddress sim.current.regs w) + 4))
        ((dataAddress sim.current.regs w).toNat % 4)) :=
    LoadOp.result_congr fun k hk => bytesAt_eq hregions dataRegion_mem dataRegion_wordAligned
      h.data (by omega) (hin.byte (hregions.bounded _ dataRegion_mem) hk) hfirst
  rw [hbytes, ← dataMemRead_align]
  exact LoadOp.fits_iff hy _ _ (Nat.mod_lt _ (by decide))

/-- A store of a part of a word. -/
theorem sameEffect_store_iff {y : StoreOp} (hx : subWord (op w) = some (.store y))
    (hy : y ≠ .sw) (hstore : storeOp (op w) = some y) (h : InExecute imem w s sim)
    (hin : dataRegion.HoldsBytes (dataAddress sim.current.regs w) y.size) :
    SameEffect imem s sim ↔ (SubWord.store y).Fits dataRegion w sim.current.regs
      (dataMemRead (s.clock imem false).dmem) (dataAddress sim.current.regs w) := by
  have haddr : storeAddress sim.current.regs w y = dataAddress sim.current.regs w := by
    cases y with
    | sw => exact absurd rfl hy
    | sb | sh => rfl
  have hregions : WellFormed memRegions := Simulator.memRegions_wellFormed .mips
  have hfirst := hin.first y.size_pos
  have hcycle := cycle_store h.next h.word hstore
  have hmem : (cycle sim).mem = memWrite32 memRegions sim.mem (dataAddress sim.current.regs w)
      (y.masked (sim.current.regs (rt w))) := by
    rw [hcycle, haddr]
  have hregs : (cycle sim).current.regs = sim.current.regs := by rw [hcycle]
  have hread : ∀ b : Word, b &&& 3 = 0 →
      dataMemRead ((s.clock imem false).clock imem false).dmem b =
        Function.update (dataMemRead (s.clock imem false).dmem)
          (wordOf (dataAddress sim.current.regs w)) (sim.current.regs (rt w)) b := by
    intro b hb
    rw [h.dmem hx]
    exact dataMemRead_write hfirst hb _
  refine Iff.trans ?_ (storeFits_iff hregions dataRegion_mem dataRegion_wordAligned hfirst
    h.data y (sim.current.regs (rt w)))
  rw [← hmem]
  constructor
  · intro heffect b hb hholds
    rw [heffect.data b hb hholds, hread b hb]
  · intro hwords
    refine ⟨?_, fun b hb hholds => ?_⟩
    · rw [h.regs_store hx rfl, hregs]
    · rw [hwords b hb hholds, hread b hb]

/-- `LUI` and the loads and stores of bytes and halves have the effect that they have in the
simulator exactly where the words in memory make up for the missing logic: `LUI` when the
memory holds its result at the sum that the pipeline computes, a load when the whole word is
the value of the part, and a store when the whole word is what the simulator leaves. -/
theorem subWord_iff {x : SubWord} (hx : subWord (op w) = some x) (h : InExecute imem w s sim)
    (hin : x.InRegion dataRegion (dataAddress sim.current.regs w)) :
    SameEffect imem s sim ↔ x.Fits dataRegion w sim.current.regs
      (dataMemRead (s.clock imem false).dmem) (dataAddress sim.current.regs w) := by
  rcases subWord_cases hx with ⟨hop, rfl⟩ | ⟨y, hy, hload, rfl⟩ | ⟨y, hy, hstore, rfl⟩
  · exact sameEffect_writer_iff hx h rfl fun hrt => cycle_lui h.next h.word hop hrt
  · exact sameEffect_load_iff hx hy hload h hin
  · exact sameEffect_store_iff hx hy hstore h hin

end Agreement

/-! ## One word in flight -/

/-- `top` with the word in the execute stage, all registers zero and the same data in every
word. -/
def Top.alone (w data : Word) : Top :=
  { Top.cleared fun _ => data with ex := { toIssueOut := issueStage false { instr := w } } }

/-- The simulator in front of the same word. -/
def facing (w data : Word) : Sim :=
  bootSim pipelineLayout (fun _ => w) (fun _ => data) fun _ => 0

theorem agrees_facing (w data : Word) :
    pipelineLayout.Agrees (fun _ => w) (fun _ => data) (facing w data) :=
  pipelineLayout.agrees_bootMemory rfl

theorem inExecute_alone (w data : Word) :
    InExecute (fun _ => w) w (Top.alone w data) (facing w data) where
  issued := ⟨{ instr := w }, rfl, rfl⟩
  operand1 := by simp [Top.rDataP1, fwdSelect, Top.alone, Top.cleared, facing, bootSim]
  operand2 := by simp [Top.rDataP2, fwdSelect, Top.alone, Top.cleared, facing, bootSim]
  regs := rfl
  data a haligned hholds := by
    have hlow : 0x2000 ≤ a := hholds.1
    have hhigh : a < dataEnd := by
      have hend : a.toNat + 4 ≤ 0x2000 + 0x100000 := hholds.2
      show a.toNat < 0x102000
      omega
    have hdmem : ((Top.alone w data).clock (fun _ => w) false).dmem = fun _ => data := rfl
    rw [hdmem]
    exact (agrees_facing w data).data a haligned hlow hhigh
  next := rfl
  zero := rfl
  word := (agrees_facing w data).text 0 (by decide) (by decide)

/-- `LBU r1, 0x2000(r0)` of a word below 256. -/
theorem subWord_iff_small :
    SameEffect (fun _ => 0x90012000) (Top.alone 0x90012000 5) (facing 0x90012000 5) :=
  (subWord_iff (x := .load .lbu) (by decide) (inExecute_alone 0x90012000 5)
    (by decide +kernel)).mpr (.inr (by decide +kernel))

/-- `LBU r1, 0x2000(r0)` of the word `0x1FF` loads it all. -/
theorem subWord_whole_word :
    ¬ ∀ (imem : Word → Word) (w : Word) (s : Top) (sim : Sim) (x : SubWord),
      subWord (op w) = some x → InExecute imem w s sim →
        x.InRegion dataRegion (dataAddress sim.current.regs w) → SameEffect imem s sim := by
  intro hall
  have heffect := hall _ _ _ _ (.load .lbu) (by decide) (inExecute_alone 0x90012000 0x1FF)
    (by decide +kernel)
  exact absurd (congrFun heffect.regs 1) (by decide +kernel)

end SimpleCpu.Mips
