import SimpleCpu.CoSim.Bench
import SimpleCpu.Mips.Datapath
import SimpleCpu.Mips.IssFrame

/-!
# Co-simulation

A testbench lets the simulator execute one instruction and hands what the datapath has
made of it to `compare_r`, `compare_i` or `compare_j` of `sim.c`.  Each compares its
arguments in turn, clears `RUN_BIT` at the first that differs, and moves `prev_pc` on if
none does.

Only the registers an instruction names are compared.  `Taps.compare_iff` says that this
is enough: for every word but `JALR` (`Named`), a comparison succeeds exactly when the
datapath and the simulator leave the same register file behind.
-/

namespace SimpleCpu.Mips.CoSim

open SimpleCpu.Bits SimpleCpu.CoSim SimpleCpu.Iss SimpleCpu.Mips.Isa SimpleCpu.Mips.Iss

/-! ## State -/

/-- The simulator and the variables of the comparisons. -/
structure Checker where
  sim : Sim
  prevPc : BitVec 32
  rtAsSrc : Bool
  wrLinkReg : Bool

/-- `init`, for the program that the files hold. -/
def init (words : List (BitVec 32 × BitVec 32)) : Checker where
  sim := loadProgram initMemory words
  prevPc := 0
  rtAsSrc := false
  wrLinkReg := false

/-- The words whose case of `execute_r` sets `rt_as_src`, for register 0 as well. -/
def setsRtAsSrc (instr : BitVec 32) : Bool :=
  decodeInstrType instr = .r && [SLL, SRL, SRA, SLLV, SRLV, SRAV].contains (instr &&& 0x3F)

/-- The words whose case of `execute_i` or `execute_j` sets `wr_link_reg`.  `JALR` clears
it. -/
def setsWrLinkReg (instr : BitVec 32) : Bool :=
  match decodeInstrType instr with
  | .r => false
  | .i => instr >>> 26 &&& 0x3F = BVAR ∧
      (instr >>> 16 &&& 0x1F = BLTZAL ∨ instr >>> 16 &&& 0x1F = BGEZAL)
  | .j => instr >>> 26 &&& 0x3F = JAL

/-- `cycle`, with the variables of the comparisons. -/
def Checker.cycle (c : Checker) : Checker :=
  let instrOpcode := c.sim.memRead c.sim.current.pc
  { c with
    sim := Iss.cycle c.sim
    rtAsSrc := setsRtAsSrc instrOpcode
    wrLinkReg := setsWrLinkReg instrOpcode }

/-- `run (1)`; `none` is `exit`. -/
def Checker.run (c : Checker) : Option Checker :=
  if c.sim.runBit = false then none else some c.cycle

/-! ## Comparisons -/

/-- What the messages of a failed test name. -/
inductive Mismatch where
  | pc | instr | rd | rs | rt | rdVal | rsVal | rtVal | opcode
  deriving DecidableEq, Repr

namespace Checker

variable (c : Checker)

/-- The end of a comparison that succeeds. -/
def agreed : Checker := { c with prevPc := c.sim.current.pc }

/-- How a `compare` function ends, from its tests.  The result `none` is the return
value 1. -/
def check (tests : List (Mismatch × BitVec 32 × BitVec 32)) : Option Mismatch × Checker :=
  verdict tests c.agreed { c with sim := { c.sim with runBit := false } }

/-- `CURRENT_STATE.REGS[i]` -/
def val (i : BitVec 32) : BitVec 32 := c.sim.current.reg i

/-- `compare_r`.  A source that is the destination has been read before the write. -/
def compareR (pc instr rd rs rt rdVal rsVal rtVal : BitVec 32) : Option Mismatch × Checker :=
  let instrModel := c.sim.instrOpcode
  let rsField := instrModel >>> 21 &&& 0x1F
  let rtModel := instrModel >>> 16 &&& 0x1F
  let rdModel := instrModel >>> 11 &&& 0x1F
  let rsModel := if c.rtAsSrc then rtModel else rsField
  let rdValModel := if c.wrLinkReg then c.val 31 else c.val rdModel
  let rsVal := if rs = rd then rdVal else rsVal
  let rtVal := if rt = rd then rdVal else rtVal
  c.check [(.pc, c.prevPc, pc), (.instr, instr, instrModel), (.rd, rd, rdModel),
    (.rs, rs, rsModel), (.rt, rt, rtModel), (.rdVal, rdVal, rdValModel),
    (.rsVal, rsVal, c.val rsModel), (.rtVal, rtVal, c.val rtModel)]

/-- `compare_i` -/
def compareI (pc instr rs rt rsVal rtVal : BitVec 32) : Option Mismatch × Checker :=
  let instrModel := c.sim.instrOpcode
  let rsModel := instrModel >>> 21 &&& 0x1F
  let rtModel : BitVec 32 := if c.wrLinkReg then 0x1F else instrModel >>> 16 &&& 0x1F
  let rsVal := if rs = rt then rtVal else rsVal
  c.check [(.pc, c.prevPc, pc), (.instr, instr, instrModel), (.rs, rs, rsModel),
    (.rt, rt, rtModel), (.rsVal, rsVal, c.val rsModel), (.rtVal, rtVal, c.val rtModel)]

/-- `compare_j`.  The register is compared for instructions that link. -/
def compareJ (pc instr rt rtVal : BitVec 32) : Option Mismatch × Checker :=
  let instrModel := c.sim.instrOpcode
  let rtModel : BitVec 32 := if c.wrLinkReg then 0x1F else instrModel >>> 16 &&& 0x1F
  c.check ([(.pc, c.prevPc, pc), (.instr, instr, instrModel)] ++
    if c.wrLinkReg then [(.rt, rt, rtModel), (.rtVal, rtVal, c.val rtModel)] else [])

end Checker

/-! ## What a testbench hands over -/

/-- What a testbench taps for the instruction it samples.  `read` is the register file as
it reads it. -/
structure Tapped where
  isRType : Bool
  isIType : Bool
  isJType : Bool
  pc : BitVec 32
  instr : BitVec 32
  rd : BitVec 5
  rs : BitVec 5
  rt : BitVec 5
  read : BitVec 5 → BitVec 32
  regWr : Bool
  useLinkReg : Bool
  wrData : BitVec 32

namespace Tapped

variable (x : Tapped)

/-- `rd_val_dest` -/
def rdValDest : BitVec 32 := if x.regWr then x.wrData else x.read x.rd

/-- `rt_val_dest` -/
def rtValDest : BitVec 32 := if x.regWr || x.useLinkReg then x.wrData else x.read x.rt

/-- The comparison for the type of the instruction. -/
def compare (c : Checker) : Option Mismatch × Checker :=
  if x.isRType then
    c.compareR x.pc x.instr (x.rd.setWidth 32) (x.rs.setWidth 32) (x.rt.setWidth 32)
      x.rdValDest (x.read x.rs) (x.read x.rt)
  else if x.isIType then
    c.compareI x.pc x.instr (x.rs.setWidth 32) (x.rt.setWidth 32) (x.read x.rs) x.rtValDest
  else if x.isJType then c.compareJ x.pc x.instr (x.rt.setWidth 32) x.rtValDest
  else (some .opcode, c)

/-- The taps behind the decoder and the control table of a datapath. -/
def ofDecode (d : Decode) (c : Controls) (pc instr : BitVec 32)
    (read : BitVec 5 → BitVec 32) (wrData : BitVec 32) : Tapped where
  isRType := d.isRType
  isIType := d.isIType
  isJType := d.isJType
  pc := pc
  instr := instr
  rd := d.writeReg c
  rs := d.readReg1 c
  rt := if d.useLinkReg then 0x1F else d.rt
  read := read
  regWr := c.regWr
  useLinkReg := d.useLinkReg
  wrData := wrData

/-- The write port that the taps describe. -/
def writes (regs : BitVec 5 → BitVec 32) : BitVec 5 → BitVec 32 :=
  if x.regWr || x.useLinkReg then Function.update regs x.rd x.wrData else regs

end Tapped

/-! ## The simulator's side -/

section Cycle

theorem ite_instrOpcode {p : Prop} [Decidable p] {w : BitVec 32} {s t : Sim}
    (hs : p → s.instrOpcode = w) (ht : ¬ p → t.instrOpcode = w) :
    (if p then s else t).instrOpcode = w := by
  split
  next h => exact hs h
  next h => exact ht h

variable (s : Sim)

theorem executeR_instrOpcode (rs rt rd shamt funct : BitVec 32) :
    (executeR s rs rt rd shamt funct).instrOpcode = s.instrOpcode := by
  unfold executeR
  repeat' refine ite_instrOpcode (fun _ => ?_) fun _ => ?_
  all_goals rfl

theorem executeI_instrOpcode (opcode rs rt imm : BitVec 32) :
    (executeI s opcode rs rt imm).instrOpcode = s.instrOpcode := by
  unfold executeI
  repeat' refine ite_instrOpcode (fun _ => ?_) fun _ => ?_
  all_goals rfl

theorem executeJ_instrOpcode (opcode target : BitVec 32) :
    (executeJ s opcode target).instrOpcode = s.instrOpcode := by
  unfold executeJ
  repeat' refine ite_instrOpcode (fun _ => ?_) fun _ => ?_
  all_goals rfl

/-- `instr_opcode` is the word that the last cycle has executed. -/
theorem cycle_instrOpcode : (cycle s).instrOpcode = s.memRead s.current.pc := by
  show (processInstruction s).instrOpcode = _
  rw [processInstruction_eq rfl]
  cases decodeInstrType (s.memRead s.current.pc) with
  | r => exact executeR_instrOpcode _ _ _ _ _ _
  | i => exact executeI_instrOpcode _ _ _ _ _
  | j => exact executeJ_instrOpcode _ _ _

end Cycle

/-! ## The datapath's side -/

/-- What the rows of the control table have in common. -/
structure RowLaws (w : BitVec 32) (c : Controls) : Prop where
  regDst : op w = 0 → c.regDst = true
  rtDst : op w ≠ 0 → c.regWr = true → c.regDst = false
  regSrc : c.regSrc = setsRtAsSrc w
  jump : op w = 2 → c.regWr = false
  jalr : op w = 0 → funct w = Defines.JALR → c.regWr = true

section Rows

variable {w : BitVec 32}

/-- The functions that set `rt_as_src`. -/
def shiftFuncts : List (BitVec 6) := [0x0, 0x2, 0x3, 0x4, 0x6, 0x7]

theorem decodeInstrType_r_iff : decodeInstrType w = .r ↔ op w = 0 := by
  rw [decodeInstrType_eq]
  split_ifs <;> simp_all

theorem setsRtAsSrc_iff : setsRtAsSrc w = true ↔ op w = 0 ∧ funct w ∈ shiftFuncts := by
  have hfunct : ∀ c : BitVec 6, (funct w).setWidth 32 = c.setWidth 32 ↔ funct w = c :=
    fun c => setWidth_eq_iff (by decide) _ _
  unfold setsRtAsSrc shiftFuncts
  rw [field_funct, Bool.and_eq_true, decide_eq_true_eq, decodeInstrType_r_iff,
    List.contains_iff_mem]
  simp only [List.mem_cons, List.not_mem_nil, or_false]
  exact and_congr_right fun _ => or_congr (hfunct 0x0) (or_congr (hfunct 0x2)
    (or_congr (hfunct 0x3) (or_congr (hfunct 0x4) (or_congr (hfunct 0x6) (hfunct 0x7)))))

theorem controlR_laws : ∀ fn : BitVec 6, (Controls.ofBits (controlR fn)).regDst = true ∧
    ((Controls.ofBits (controlR fn)).regSrc = true ↔ fn ∈ shiftFuncts) ∧
    (fn = Defines.JALR → (Controls.ofBits (controlR fn)).regWr = true) := by
  decide +kernel

theorem controlRow_laws : ∀ o : BitVec 6, ∀ c ∈ (controlRow o).map Controls.ofBits,
    (c.regWr = true → c.regDst = false) ∧ c.regSrc = false ∧
      (o = 2 → c.regWr = false) := by
  decide +kernel

/-- Whatever the default row, as long as it writes no register. -/
theorem rowLaws {other : BitVec 18} (hwr : (Controls.ofBits other).regWr = false)
    (hsrc : (Controls.ofBits other).regSrc = false) (w : BitVec 32) :
    RowLaws w (Controls.ofBits (controlTable other (op w) (funct w))) := by
  have hR := controlR_laws (funct w)
  by_cases hop : op w = 0
  · have hrow : controlTable other (op w) (funct w) = controlR (funct w) := if_pos hop
    rw [hrow]
    exact
      { regDst := fun _ => hR.1
        rtDst := fun h => absurd hop h
        regSrc := by
          rw [Bool.eq_iff_iff, setsRtAsSrc_iff, hR.2.1]
          exact (and_iff_right hop).symm
        jump := fun h => absurd (hop.symm.trans h) (by decide)
        jalr := fun _ => hR.2.2 }
  · have hlaws : ((Controls.ofBits ((controlRow (op w)).getD other)).regWr = true →
          (Controls.ofBits ((controlRow (op w)).getD other)).regDst = false) ∧
        (Controls.ofBits ((controlRow (op w)).getD other)).regSrc = false ∧
        (op w = 2 → (Controls.ofBits ((controlRow (op w)).getD other)).regWr = false) := by
      cases hrow : controlRow (op w) with
      | none => exact ⟨fun h => absurd (hwr.symm.trans h) nofun, hsrc, fun _ => hwr⟩
      | some row => exact controlRow_laws (op w) _ (by rw [hrow]; rfl)
    have hrow : controlTable other (op w) (funct w) = (controlRow (op w)).getD other :=
      if_neg hop
    rw [hrow]
    exact
      { regDst := fun h => absurd h hop
        rtDst := fun _ => hlaws.1
        regSrc := by
          rw [hlaws.2.1, eq_comm, Bool.eq_false_iff, Ne, setsRtAsSrc_iff]
          exact fun h => hop h.1
        jump := hlaws.2.2
        jalr := fun h => absurd h hop }

/-- Both tables. -/
theorem rowLaws_control (w : BitVec 32) : RowLaws w (control (op w) (funct w)) :=
  rowLaws (by decide) (by decide) w

theorem rowLaws_controlSingleCycle (w : BitVec 32) :
    RowLaws w (controlSingleCycle (op w) (funct w)) :=
  rowLaws (by decide) (by decide) w

/-- The instruction links through its own signal, which `JALR` does not give the
simulator. -/
theorem useLinkReg_of_op (hop : op w ≠ 0) :
    (decodeSingleCycle w).useLinkReg = setsWrLinkReg w := by
  have hopc : ∀ c : BitVec 6, (op w).setWidth 32 = c.setWidth 32 ↔ op w = c :=
    fun c => setWidth_eq_iff (by decide) _ _
  have hrt : ∀ c : BitVec 5, (rt w).setWidth 32 = c.setWidth 32 ↔ rt w = c :=
    fun c => setWidth_eq_iff (by decide) _ _
  have h1 : (op w).setWidth 32 = BVAR ↔ op w = 1 := hopc 1
  have h3 : (op w).setWidth 32 = JAL ↔ op w = 3 := hopc 3
  have hbltzal : (rt w).setWidth 32 = BLTZAL ↔ rt w = 0x10 := hrt 0x10
  have hbgezal : (rt w).setWidth 32 = BGEZAL ↔ rt w = 0x11 := hrt 0x11
  unfold setsWrLinkReg decodeSingleCycle
  rw [decodeFields_eq, decodeInstrType_eq, if_neg hop, field_op, field_rt, Bool.eq_iff_iff]
  simp only [h1, h3, hbltzal, hbgezal]
  have hr : (w.extractLsb' 26 6 == 0) = false := beq_eq_false_iff_ne.mpr hop
  rw [hr]
  simp only [Bool.false_and, Bool.or_false, Bool.or_eq_true, Bool.and_eq_true, beq_iff_eq]
  by_cases hj : op w = 2 ∨ op w = 3
  · rw [if_pos hj]
    rcases hj with hj | hj <;> rw [hj] <;> simp
  · rw [if_neg hj]
    simp only [decide_eq_true_eq]
    exact ⟨fun h => h.resolve_right fun h' => hj (Or.inr h'.2), Or.inl⟩

end Rows

/-! ## One comparison -/

section Compare

variable {c c' : Checker}

/-- A comparison that succeeds has found the values equal, and has moved `prev_pc` on. -/
theorem check_eq_none_iff {tests : List (Mismatch × BitVec 32 × BitVec 32)} :
    c.check tests = (none, c') ↔ (∀ t ∈ tests, t.2.1 = t.2.2) ∧ c' = c.agreed :=
  verdict_eq_none_iff

/-- The simulator executes the word that the comparison has been given. -/
theorem instr_eq_of_compare {x : Tapped} (h : x.compare c.cycle = (none, c')) :
    x.instr = c.sim.memRead c.sim.current.pc := by
  refine Eq.trans ?_ (cycle_instrOpcode c.sim)
  unfold Tapped.compare at h
  split_ifs at h
  case neg => exact absurd (Prod.mk.inj h).1 nofun
  all_goals
    obtain ⟨htests, -⟩ := check_eq_none_iff.mp h
    simp only [List.cons_append, List.forall_mem_cons] at htests
    exact htests.2.1

end Compare

section Writes

variable {x : Tapped} {regs : BitVec 5 → BitVec 32}

/-- Registers that are not written. -/
theorem Tapped.writes_of_ne {r : BitVec 5}
    (hr : (x.regWr || x.useLinkReg) = true → r ≠ x.rd) : x.writes regs r = regs r := by
  unfold Tapped.writes
  split
  next hw => exact Function.update_of_ne (hr hw) _ _
  next => rfl

/-- The register that is written. -/
theorem Tapped.writes_rd (hw : (x.regWr || x.useLinkReg) = true) :
    x.writes regs x.rd = x.wrData := by
  unfold Tapped.writes
  rw [if_pos hw, Function.update_self]

end Writes

/-- The taps `x` belong to a datapath that executes `w` with the registers `regs`, and
reads its register file before or after the write. -/
structure Taps (w : BitVec 32) (ctl : Controls) (regs : BitVec 5 → BitVec 32) (x : Tapped) :
    Prop where
  taps : x = Tapped.ofDecode (decodeSingleCycle w) ctl x.pc w x.read x.wrData
  rows : RowLaws w ctl
  read : x.read = regs ∨ x.read = x.writes regs

namespace Taps

variable {w : BitVec 32} {ctl : Controls} {regs : BitVec 5 → BitVec 32} {x : Tapped}
  (h : Taps w ctl regs x)

include h

theorem isRType_eq : x.isRType = (op w == 0) := congrArg Tapped.isRType h.taps

theorem isIType_eq : x.isIType = (op w != 0 && (op w != 2 && op w != 3)) :=
  congrArg Tapped.isIType h.taps

theorem isJType_eq : x.isJType = (op w == 2 || op w == 3) := congrArg Tapped.isJType h.taps

theorem instr_eq : x.instr = w := congrArg Tapped.instr h.taps

theorem regWr_eq : x.regWr = ctl.regWr := congrArg Tapped.regWr h.taps

theorem rs_eq : x.rs = if setsRtAsSrc w then rt w else rs w := by
  rw [← h.rows.regSrc]
  exact congrArg Tapped.rs h.taps

theorem rt_eq : x.rt = if x.useLinkReg then 31 else rt w := by
  rw [show x.useLinkReg = _ from congrArg Tapped.useLinkReg h.taps]
  exact congrArg Tapped.rt h.taps

theorem rd_eq : x.rd = if x.useLinkReg then 31 else if ctl.regDst then rd w else rt w := by
  rw [show x.useLinkReg = _ from congrArg Tapped.useLinkReg h.taps]
  exact congrArg Tapped.rd h.taps

/-- An R-type word links if it is `JALR`. -/
theorem useLinkReg_rType (hop : op w = 0) : x.useLinkReg = (funct w == Defines.JALR) := by
  rw [show x.useLinkReg = (decodeSingleCycle w).useLinkReg from
    congrArg Tapped.useLinkReg h.taps, decodeSingleCycle, decodeFields_eq]
  have hr : (w.extractLsb' 26 6 == 0) = true := beq_iff_eq.mpr hop
  rw [hr]
  simp [hop]

theorem useLinkReg_other (hop : op w ≠ 0) : x.useLinkReg = setsWrLinkReg w :=
  (congrArg Tapped.useLinkReg h.taps).trans (useLinkReg_of_op hop)

/-- A link instruction of R type also writes through `reg_wr`. -/
theorem regWr_of_link (hop : op w = 0) (hl : x.useLinkReg = true) : x.regWr = true := by
  rw [h.useLinkReg_rType hop, beq_iff_eq] at hl
  rw [h.regWr_eq]
  exact h.rows.jalr hop hl

/-- What is written by other words goes to the register that is compared. -/
theorem rd_eq_rt (hop : op w ≠ 0) (hw : (x.regWr || x.useLinkReg) = true) : x.rd = x.rt := by
  rw [h.rd_eq, h.rt_eq]
  cases hl : x.useLinkReg with
  | true => rfl
  | false =>
      rw [hl, Bool.or_false, h.regWr_eq] at hw
      rw [h.rows.rtDst hop hw]
      rfl

theorem read_of_ne {r : BitVec 5} (hr : (x.regWr || x.useLinkReg) = true → r ≠ x.rd) :
    x.read r = x.writes regs r := by
  rcases h.read with hread | hread
  · rw [hread, Tapped.writes_of_ne hr]
  · rw [hread]

/-- The value handed over for the destination of an R-type word. -/
theorem rdValDest_eq (hop : op w = 0) : x.rdValDest = x.writes regs x.rd := by
  unfold Tapped.rdValDest
  cases hw : x.regWr with
  | true => exact (Tapped.writes_rd (by rw [hw, Bool.true_or])).symm
  | false =>
      refine h.read_of_ne fun hwr => ?_
      have hl : x.useLinkReg = true := by rwa [hw, Bool.false_or] at hwr
      exact absurd (hw.symm.trans (h.regWr_of_link hop hl)) nofun

/-- The value handed over for the destination of any other word. -/
theorem rtValDest_eq (hop : op w ≠ 0) : x.rtValDest = x.writes regs x.rt := by
  unfold Tapped.rtValDest
  cases hw : x.regWr || x.useLinkReg with
  | true => rw [← h.rd_eq_rt hop hw, Tapped.writes_rd hw, if_pos rfl]
  | false => exact h.read_of_ne fun hwr => absurd (hw.symm.trans hwr) nofun

/-- A source, after the write.  The comparison takes it from the destination `d`. -/
theorem srcVal_eq {d : BitVec 5} {v : BitVec 32} (hv : v = x.writes regs d)
    (hd : (x.regWr || x.useLinkReg) = true → x.rd = d) (r : BitVec 5) :
    (if (r.setWidth 32 : BitVec 32) = d.setWidth 32 then v else x.read r) =
      x.writes regs r := by
  split
  next hr => rw [(setWidth_eq_iff (by decide) r d).mp hr, hv]
  next hr =>
    refine h.read_of_ne fun hw => ?_
    rintro rfl
    exact hr (congrArg (BitVec.setWidth 32) (hd hw))

end Taps

/-! ## What a comparison decides -/

section Compare

variable {w : BitVec 32} {ctl : Controls} {regs : BitVec 5 → BitVec 32} {x : Tapped}
  {c c' : Checker}

theorem setsWrLinkReg_rType (hop : op w = 0) : setsWrLinkReg w = false := by
  unfold setsWrLinkReg
  rw [decodeInstrType_r_iff.mpr hop]

theorem Checker.cycle_instrOpcode_eq (hw : c.sim.memRead c.sim.current.pc = w) :
    c.cycle.sim.instrOpcode = w :=
  (cycle_instrOpcode c.sim).trans hw

theorem field_inj (r r' : BitVec 5) : (r.setWidth 32 : BitVec 32) = r'.setWidth 32 ↔ r = r' :=
  setWidth_eq_iff (by decide) r r'

theorem Taps.compare_rType_iff (h : Taps w ctl regs x)
    (hw : c.sim.memRead c.sim.current.pc = w) (hop : op w = 0) :
    x.compare c.cycle = (none, c') ↔
      (c.prevPc = x.pc ∧ x.rd = rd w ∧ x.rt = rt w ∧
        ∀ r ∈ [x.rd, x.rs, x.rt], x.writes regs r = (Iss.cycle c.sim).current.regs r) ∧
      c' = c.cycle.agreed := by
  have hR : x.isRType = true := by rw [h.isRType_eq, beq_iff_eq, hop]
  have hinstr := Checker.cycle_instrOpcode_eq hw
  have hsrc : c.cycle.rtAsSrc = setsRtAsSrc w := by rw [← hw]; rfl
  have hlink : c.cycle.wrLinkReg = false := by
    rw [← setsWrLinkReg_rType hop, ← hw]
    rfl
  have hrs : (if setsRtAsSrc w then (rt w).setWidth 32 else (rs w).setWidth 32) =
      x.rs.setWidth 32 := by
    rw [h.rs_eq]
    split <;> rfl
  have hval := h.rdValDest_eq hop
  unfold Tapped.compare
  rw [if_pos hR]
  unfold Checker.compareR
  dsimp only
  rw [hinstr, hsrc, hlink, field_rs, field_rt, field_rd, check_eq_none_iff, hrs,
    h.srcVal_eq hval fun _ => rfl, h.srcVal_eq hval fun _ => rfl, hval, h.instr_eq]
  refine and_congr ?_ Iff.rfl
  simp only [List.forall_mem_cons, List.not_mem_nil, false_imp_iff, implies_true, and_true,
    field_inj, true_and, Checker.val, Bool.false_eq_true, if_false, reg_field]
  refine and_congr_right fun _ => and_congr_right fun hrd => and_congr_right fun hrt => ?_
  rw [← hrd, ← hrt]
  rfl

theorem Taps.compare_iType_iff (h : Taps w ctl regs x)
    (hw : c.sim.memRead c.sim.current.pc = w) (hop : decodeInstrType w = .i) :
    x.compare c.cycle = (none, c') ↔
      (c.prevPc = x.pc ∧
        ∀ r ∈ [x.rs, x.rt], x.writes regs r = (Iss.cycle c.sim).current.regs r) ∧
      c' = c.cycle.agreed := by
  rw [decodeInstrType_eq] at hop
  split_ifs at hop with h0 hJ
  have hR : ¬ x.isRType = true := by
    rw [h.isRType_eq, beq_iff_eq]
    exact h0
  have hI : x.isIType = true := by
    rw [h.isIType_eq, Bool.and_eq_true, Bool.and_eq_true, bne_iff_ne, bne_iff_ne, bne_iff_ne]
    exact ⟨h0, not_or.mp hJ⟩
  have hinstr := Checker.cycle_instrOpcode_eq hw
  have hlink : c.cycle.wrLinkReg = x.useLinkReg := by
    rw [h.useLinkReg_other h0, ← hw]
    rfl
  have hrs : x.rs = rs w := by
    have hshift : setsRtAsSrc w = false := by
      rw [Bool.eq_false_iff, Ne, setsRtAsSrc_iff]
      exact fun hs => h0 hs.1
    rw [h.rs_eq, hshift]
    rfl
  have hrt : (if x.useLinkReg then 0x1F else (rt w).setWidth 32 : BitVec 32) =
      x.rt.setWidth 32 := by
    rw [h.rt_eq]
    split <;> rfl
  have hval := h.rtValDest_eq h0
  unfold Tapped.compare
  rw [if_neg hR, if_pos hI]
  unfold Checker.compareI
  dsimp only
  rw [hinstr, hlink, field_rs, field_rt, check_eq_none_iff, hrt,
    h.srcVal_eq hval (h.rd_eq_rt h0), hval, h.instr_eq]
  refine and_congr ?_ Iff.rfl
  simp only [List.forall_mem_cons, List.not_mem_nil, false_imp_iff, implies_true, and_true,
    true_and, Checker.val, reg_field, hrs]
  rfl

theorem Taps.compare_jType_iff (h : Taps w ctl regs x)
    (hw : c.sim.memRead c.sim.current.pc = w) (hop : decodeInstrType w = .j) :
    x.compare c.cycle = (none, c') ↔
      (c.prevPc = x.pc ∧
        (x.useLinkReg = true → x.writes regs x.rt = (Iss.cycle c.sim).current.regs x.rt)) ∧
      c' = c.cycle.agreed := by
  rw [decodeInstrType_eq] at hop
  split_ifs at hop with h0 hJ
  have hR : ¬ x.isRType = true := by
    rw [h.isRType_eq, beq_iff_eq]
    exact h0
  have hI : ¬ x.isIType = true := by
    rw [h.isIType_eq]
    rcases hJ with hJ | hJ <;> rw [hJ] <;> decide
  have hJ' : x.isJType = true := by
    rw [h.isJType_eq]
    simpa using hJ
  have hinstr := Checker.cycle_instrOpcode_eq hw
  have hlink : c.cycle.wrLinkReg = x.useLinkReg := by
    rw [h.useLinkReg_other h0, ← hw]
    rfl
  have hrt : (if x.useLinkReg then 0x1F else (rt w).setWidth 32 : BitVec 32) =
      x.rt.setWidth 32 := by
    rw [h.rt_eq]
    split <;> rfl
  unfold Tapped.compare
  rw [if_neg hR, if_neg hI, if_pos hJ']
  unfold Checker.compareJ
  dsimp only
  rw [hinstr, hlink, field_rt, check_eq_none_iff, hrt, h.rtValDest_eq h0, h.instr_eq]
  refine and_congr ?_ Iff.rfl
  cases hl : x.useLinkReg <;>
    simp only [List.cons_append, List.nil_append, List.forall_mem_cons, List.not_mem_nil,
      false_imp_iff, implies_true, and_true, true_and, Checker.val, reg_field, if_true,
      Bool.false_eq_true, if_false, forall_const] <;>
    rfl

/-! ### Registers that neither side touches -/

theorem Taps.designated_rType (h : Taps w ctl regs x) (hop : op w = 0) (hrd : x.rd = rd w)
    {r : BitVec 5} (hr : designated w = some r) : r = x.rd := by
  have hfunct : w &&& 0x3F = JALR ↔ funct w = Defines.JALR := by
    rw [field_funct]
    exact setWidth_eq_iff (by decide) (funct w) Defines.JALR
  unfold designated at hr
  rw [decodeInstrType_r_iff.mpr hop] at hr
  dsimp only [designatedR] at hr
  split_ifs at hr with hjalr hw
  · rw [← Option.some.inj hr, h.rd_eq, h.useLinkReg_rType hop, beq_iff_eq.mpr (hfunct.mp hjalr)]
    rfl
  · exact (Option.some.inj hr).symm.trans hrd.symm

/-- The opcode of `BVAR` and the variants that link set `wr_link_reg`. -/
theorem setsWrLinkReg_iType (hop : decodeInstrType w = .i) : setsWrLinkReg w = true ↔
    w >>> 26 &&& 0x3F = BVAR ∧
      ((rt w).setWidth 32 = BLTZAL ∨ (rt w).setWidth 32 = BGEZAL) := by
  unfold setsWrLinkReg
  rw [hop, field_rt]
  exact decide_eq_true_iff

theorem Taps.designated_iType (h : Taps w ctl regs x) (hop : decodeInstrType w = .i)
    {r : BitVec 5} (hr : designated w = some r) : r = x.rt := by
  have h0 : op w ≠ 0 := fun h0 => by simp [decodeInstrType_r_iff.mpr h0] at hop
  have hlink := setsWrLinkReg_iType hop
  unfold designated at hr
  rw [hop] at hr
  dsimp only [designatedI] at hr
  rw [h.rt_eq, h.useLinkReg_other h0]
  split_ifs at hr with hbvar hvar hw
  · rw [← Option.some.inj hr, hlink.mpr ⟨hbvar, hvar⟩]
    rfl
  · rw [← Option.some.inj hr, Bool.eq_false_iff.mpr fun hl => hbvar (hlink.mp hl).1]
    rfl

theorem setsWrLinkReg_jType (hop : decodeInstrType w = .j) :
    setsWrLinkReg w = true ↔ op w = 3 := by
  have hjal : w >>> 26 &&& 0x3F = JAL ↔ op w = 3 := by
    rw [field_op]
    exact setWidth_eq_iff (by decide) (op w) 3
  unfold setsWrLinkReg
  rw [hop, ← hjal]
  exact decide_eq_true_iff

theorem designated_jType (hop : decodeInstrType w = .j) {r : BitVec 5}
    (hr : designated w = some r) : setsWrLinkReg w = true ∧ r = 31 := by
  unfold designated at hr
  unfold setsWrLinkReg
  rw [hop] at hr ⊢
  dsimp only [designatedJ] at hr
  split_ifs at hr with hjal
  exact ⟨decide_eq_true hjal, (Option.some.inj hr).symm⟩

/-- If one register decides whether two register files agree, because both change no
other. -/
theorem eq_of_eq_at {f g : BitVec 5 → BitVec 32} (k : BitVec 5 → BitVec 32) (d : BitVec 5)
    (hf : ∀ r, r ≠ d → f r = k r) (hg : ∀ r, r ≠ d → g r = k r) (hd : f d = g d) : f = g := by
  funext r
  by_cases hr : r = d
  · rw [hr, hd]
  · rw [hf r hr, hg r hr]

/-- The simulator leaves its registers alone in a `SYSCALL`. -/
theorem cycle_regs_syscall {sim : Sim} (hnext : sim.next = sim.current)
    (hzero : sim.current.regs 0 = 0) (hw : sim.memRead sim.current.pc = 0xc) :
    (Iss.cycle sim).current.regs = sim.current.regs := by
  have hnone : designated 0xc = none := by decide
  funext r
  by_contra hne
  have hd := (frame_cycle hnext hzero).regs r hne
  rw [hw, hnone] at hd
  exact absurd hd nofun

/-- A comparison succeeds exactly when the simulator was at the instruction and leaves the
same registers behind as the datapath. -/
theorem Taps.compare_iff (h : Taps w ctl regs x) (hnext : c.sim.next = c.sim.current)
    (hzero : c.sim.current.regs 0 = 0) (hregs : regs = c.sim.current.regs)
    (hw : c.sim.memRead c.sim.current.pc = w) :
    x.compare c.cycle = (none, c') ↔
      (c.prevPc = x.pc ∧ (op w = 0 → x.rd = rd w ∧ x.rt = rt w) ∧
        x.writes regs = (Iss.cycle c.sim).current.regs) ∧
      c' = c.cycle.agreed := by
  have hsim : ∀ r, designated w ≠ some r → (Iss.cycle c.sim).current.regs r = regs r := by
    intro r hr
    by_contra hne
    rw [hregs] at hne
    exact hr (hw ▸ (frame_cycle hnext hzero).regs r hne)
  cases htype : decodeInstrType w with
  | r =>
      have hop := decodeInstrType_r_iff.mp htype
      rw [h.compare_rType_iff hw hop]
      refine and_congr (and_congr_right fun _ => ?_) Iff.rfl
      constructor
      · rintro ⟨hrd, hrt, hall⟩
        refine ⟨fun _ => ⟨hrd, hrt⟩, eq_of_eq_at regs x.rd (fun r hr => ?_) (fun r hr => ?_) ?_⟩
        · exact Tapped.writes_of_ne fun _ => hr
        · exact hsim r fun hd => hr (h.designated_rType hop hrd hd)
        · exact hall x.rd List.mem_cons_self
      · rintro ⟨hfields, heq⟩
        exact ⟨(hfields hop).1, (hfields hop).2, fun r _ => by rw [heq]⟩
  | i =>
      have hop : op w ≠ 0 := fun h0 => by simp [decodeInstrType_r_iff.mpr h0] at htype
      rw [h.compare_iType_iff hw htype]
      refine and_congr (and_congr_right fun _ => ?_) Iff.rfl
      constructor
      · intro hall
        refine ⟨fun h0 => absurd h0 hop, eq_of_eq_at regs x.rt (fun r hr => ?_) (fun r hr => ?_) ?_⟩
        · exact Tapped.writes_of_ne fun hwr => by rwa [h.rd_eq_rt hop hwr]
        · exact hsim r fun hd => hr (h.designated_iType htype hd)
        · exact hall x.rt (List.mem_cons_of_mem _ List.mem_cons_self)
      · rintro ⟨-, heq⟩ r -
        rw [heq]
  | j =>
      have hop : op w ≠ 0 := fun h0 => by simp [decodeInstrType_r_iff.mpr h0] at htype
      rw [h.compare_jType_iff hw htype]
      refine and_congr (and_congr_right fun _ => ?_) Iff.rfl
      constructor
      · intro hlink
        refine ⟨fun h0 => absurd h0 hop, ?_⟩
        cases hl : x.useLinkReg with
        | true =>
            have h31 : x.rt = 31 := by rw [h.rt_eq, hl, if_pos rfl]
            refine eq_of_eq_at regs x.rt (fun r hr => ?_) (fun r hr => ?_) (hlink hl)
            · exact Tapped.writes_of_ne fun hwr => by rwa [h.rd_eq_rt hop hwr]
            · exact hsim r fun hd => hr ((designated_jType htype hd).2.trans h31.symm)
        | false =>
            -- neither side writes a register
            have hno : setsWrLinkReg w = false := by rw [← h.useLinkReg_other hop, hl]
            have hop3 : op w ≠ 3 := fun h3 =>
              absurd (hno.symm.trans ((setsWrLinkReg_jType htype).mpr h3)) nofun
            have hop2 : op w = 2 := by
              rw [decodeInstrType_eq] at htype
              split_ifs at htype with h0 hJ
              exact hJ.resolve_right hop3
            have hwr : x.regWr = false := h.regWr_eq.trans (h.rows.jump hop2)
            funext r
            rw [Tapped.writes_of_ne fun hw' => by simp [hwr, hl] at hw', hsim r fun hd => ?_]
            exact absurd ((designated_jType htype hd).1.symm.trans hno) nofun
      · rintro ⟨-, heq⟩ -
        rw [heq]

/-- A `JALR` links through register 31, but is compared on the fields of its word. -/
def Named (w : BitVec 32) : Prop := op w = 0 → funct w = Defines.JALR → rd w = 31 ∧ rt w = 31

instance (w : BitVec 32) : Decidable (Named w) := inferInstanceAs (Decidable (_ → _ → _ ∧ _))

theorem Taps.fields_iff (h : Taps w ctl regs x) :
    (op w = 0 → x.rd = rd w ∧ x.rt = rt w) ↔ Named w := by
  refine forall_congr' fun hop => ?_
  rw [h.rd_eq, h.rt_eq, h.useLinkReg_rType hop, h.rows.regDst hop]
  by_cases hfn : funct w = Defines.JALR
  · rw [beq_iff_eq.mpr hfn]
    exact ⟨fun hf _ => ⟨hf.1.symm, hf.2.symm⟩, fun hn => ⟨(hn hfn).1.symm, (hn hfn).2.symm⟩⟩
  · rw [beq_eq_false_iff_ne.mpr hfn]
    exact iff_of_true ⟨rfl, rfl⟩ fun h => absurd h hfn

/-- No instruction that the datapaths support is a `JALR`. -/
theorem named_of_decodeInstr {y : Instr} (hy : decodeInstr w = some y) : Named w := by
  intro hop hfn
  unfold decodeInstr at hy
  rw [if_pos hop, hfn] at hy
  exact absurd hy (by simp [rFun, shFun])

/-! ## Between two instructions -/

theorem Checker.run_eq_some_iff {c₁ : Checker} :
    c.run = some c₁ ↔ c.sim.runBit = true ∧ c₁ = c.cycle := by
  unfold Checker.run
  cases hbit : c.sim.runBit with
  | true =>
      rw [if_neg nofun, Option.some_inj, eq_comm]
      exact (and_iff_right rfl).symm
  | false => exact iff_of_false nofun fun h => nomatch h.1

/-- The simulator is between two instructions, at the one that is compared next, with the
registers of the datapath. -/
structure Checker.Ready (c : Checker) (regs : BitVec 5 → BitVec 32) : Prop where
  next : c.sim.next = c.sim.current
  zero : c.sim.current.regs 0 = 0
  prevPc : c.prevPc = c.sim.current.pc
  regs : regs = c.sim.current.regs

/-- What the datapath and the simulator do in one instruction is the same, and is compared
as such. -/
structure Checker.Same (c : Checker) (x : Tapped) (regs' : BitVec 5 → BitVec 32) : Prop where
  pc : x.pc = c.sim.current.pc
  instr : x.instr = c.sim.memRead c.sim.current.pc
  named : Named x.instr
  regs : regs' = (Iss.cycle c.sim).current.regs

/-- The simulator after an instruction that has been compared. -/
theorem Checker.Ready.next_ready (h : c.Ready regs) {regs' : BitVec 5 → BitVec 32}
    (hregs : regs' = (Iss.cycle c.sim).current.regs) : c.cycle.agreed.Ready regs' where
  next := rfl
  zero := (frame_cycle h.next h.zero).zero
  prevPc := rfl
  regs := hregs

/-- One instruction, from the same registers. -/
theorem Taps.compare_ready_iff (h : Taps w ctl regs x) (hready : c.Ready regs) :
    x.compare c.cycle = (none, c') ↔
      c.Same x (x.writes regs) ∧ c' = c.cycle.agreed := by
  constructor
  · intro hcmp
    have hinstr := instr_eq_of_compare hcmp
    have hw := hinstr.symm.trans h.instr_eq
    obtain ⟨⟨hpc, hfields, hregs⟩, hc'⟩ :=
      (h.compare_iff hready.next hready.zero hready.regs hw).mp hcmp
    rw [h.fields_iff, ← h.instr_eq] at hfields
    exact ⟨⟨hpc.symm.trans hready.prevPc, hinstr, hfields, hregs⟩, hc'⟩
  · rintro ⟨⟨hpc, hinstr, hnamed, hregs⟩, hc'⟩
    have hw := hinstr.symm.trans h.instr_eq
    rw [h.instr_eq, ← h.fields_iff] at hnamed
    exact (h.compare_iff hready.next hready.zero hready.regs hw).mpr
      ⟨⟨hready.prevPc.trans hpc.symm, hnamed, hregs⟩, hc'⟩

end Compare

end SimpleCpu.Mips.CoSim
