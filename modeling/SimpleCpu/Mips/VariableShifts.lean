import SimpleCpu.Mips.Arithmetic
import SimpleCpu.Mips.Refinement

/-!
# Shifts by a register in the MIPS pipeline

The control table has the rows of the immediate shifts for `SLLV`, `SRLV` and `SRAV`.  The
second operand of the ALU is then the shift amount of the word, and the register that holds
the amount is not read at all.  The simulator shifts by the register.

* `cycle_variable_shift`: what the simulator writes.
* `writesBack_shift_iff`: what the pipeline writes.
* `variable_shift_iff`: where these are the same.
-/

namespace SimpleCpu.Mips

open SimpleCpu.Bits SimpleCpu.Rtl SimpleCpu.Mips.Isa SimpleCpu.Mips.Iss

/-! ## The instructions -/

namespace Isa

/-- Shifts by a register. -/
inductive VarShift where
  | sllv | srlv | srav
  deriving DecidableEq, Repr

def varShift (funct : BitVec 6) : Option VarShift :=
  if funct = 0x4 then some .sllv
  else if funct = 0x6 then some .srlv
  else if funct = 0x7 then some .srav
  else none

/-- The word is a shift by a register. -/
def IsVarShift (w : Word) (f : VarShift) : Prop := op w = 0 ∧ varShift (funct w) = some f

instance (w : Word) (f : VarShift) : Decidable (IsVarShift w f) :=
  inferInstanceAs (Decidable (_ ∧ _))

end Isa

/-- What either machine makes of a value and an amount.  Neither extends a sign. -/
def Isa.VarShift.shift (a : Word) (n : Nat) : VarShift → Word
  | .sllv => a <<< n
  | .srlv | .srav => a >>> n

/-- The shift leaves no bit of the value. -/
def Isa.VarShift.clears (a : Word) (n : Nat) : VarShift → Prop
  | .sllv => 2 ^ (32 - n) ∣ a.toNat
  | .srlv | .srav => a.toNat < 2 ^ n

/-- Different amounts shift alike when the smaller one leaves nothing. -/
theorem Isa.VarShift.shift_eq_iff (f : VarShift) (a : Word) (m n : Nat) :
    f.shift a m = f.shift a n ↔ m = n ∨ f.clears a (min m n) := by
  cases f with
  | sllv => exact shiftLeft_eq_shiftLeft_iff a m n
  | srlv | srav => exact ushiftRight_eq_ushiftRight_iff a m n

/-! ## The simulator -/

/-- The function code in the switch of `execute_r`. -/
def Isa.VarShift.issFunct : VarShift → BitVec 32
  | .sllv => SLLV
  | .srlv => SRLV
  | .srav => SRAV

/-- Function codes by operation. -/
theorem issFunct_row : ∀ fn : BitVec 6, ∀ f ∈ varShift fn, fn.setWidth 32 = f.issFunct := by
  decide +kernel

/-- The switch shifts by the low five bits of the register. -/
theorem executeR_variable_shift (s : Sim) (rs rt shamt : BitVec 32) {rd : BitVec 32}
    (hrd : rd ≠ 0) (f : VarShift) :
    (executeR s rs rt rd shamt f.issFunct).next.reg rd =
      f.shift (s.current.reg rt) ((s.current.reg rs).toNat % 32) := by
  have hamount : (s.current.reg rs &&& 0x1F).toNat = (s.current.reg rs).toNat % 32 :=
    toNat_and_31 _
  cases f with
  | sllv =>
      have heq : executeR s rs rt rd shamt SLLV = s.assign fun n =>
          (n.setReg rd (s.current.reg rt <<< (s.current.reg rs &&& 0x1F))).setPc
            (s.current.pc + 4) := (if_neg fun h => hrd h.1).trans rfl
      rw [VarShift.issFunct, heq, next_reg_write, BitVec.shiftLeft_eq', hamount]
      rfl
  | srlv =>
      have heq : executeR s rs rt rd shamt SRLV = s.assign fun n =>
          (n.setReg rd (s.current.reg rt >>> (s.current.reg rs &&& 0x1F))).setPc
            (s.current.pc + 4) := (if_neg fun h => hrd h.1).trans rfl
      rw [VarShift.issFunct, heq, next_reg_write, BitVec.ushiftRight_eq', hamount]
      rfl
  | srav =>
      rw [VarShift.issFunct, executeR_srav s rs rt hrd, BitVec.ushiftRight_eq', hamount]
      rfl

/-- A cycle of the simulator on a shift by a register. -/
theorem cycle_variable_shift {s : Sim} {w : Word} {f : VarShift} (h : IsVarShift w f)
    (hrd : rd w ≠ 0) (hw : s.memRead s.current.pc = w) :
    (cycle s).current.regs (rd w) =
      f.shift (s.current.regs (rt w)) ((s.current.regs (rs w)).toNat % 32) := by
  have htype : decodeInstrType w = .r := by rw [decodeInstrType_eq, if_pos h.1]
  have hfunct : w &&& 0x3F = f.issFunct := (field_funct w).trans (issFunct_row _ f h.2)
  have hrd' : (rd w).setWidth 32 ≠ (0 : BitVec 32) := mt (field_eq_zero (rd w)).mp hrd
  rw [cycle_rType hw htype, hfunct]
  simp only [← reg_field]
  exact executeR_variable_shift { s with instrOpcode := w } _ _ _ hrd' f

/-! ## The pipeline -/

/-- With the word in the execute stage, and the registers that the stage names as its
operands, two clocks later the result is written to `rd`, and nothing else is. -/
def WritesBack (w : Word) (regs : BitVec 5 → Word) (result : Word) : Prop :=
  ∀ (imem : Word → Word) (iss : IssPipeReg) (s : Top), iss.instr = w →
    s.ex.toIssueOut = issueStage false iss →
    s.rDataP1 = regs s.ex.rs → s.rDataP2 = regs s.ex.rt →
    let retiring := (s.clock imem false).clock imem false
    retiring.regFileNext = Function.update retiring.regFile (rd w) result

/-- The operation that the control table selects. -/
def Isa.VarShift.aluOp : VarShift → BitVec 6
  | .sllv => SHL_OP
  | .srlv => LSR_OP
  | .srav => ASR_OP

/-- Rows of the inner table for shifts by a register. -/
theorem controlR_variable_shift : ∀ fn : BitVec 6, ∀ f ∈ varShift fn,
    fn ≠ Defines.JALR ∧ Controls.ofBits (controlR fn) =
      { regSrc := true, regDst := true, jump := false, branch := false, memRead := false
        memToReg := false, aluOp := f.aluOp, memWr := false, aluSrc := 0b010
        regWr := true, signExt := false } := by
  decide +kernel

theorem control_variable_shift {w : Word} {f : VarShift} (h : IsVarShift w f) :
    control (op w) (funct w) =
      { regSrc := true, regDst := true, jump := false, branch := false, memRead := false
        memToReg := false, aluOp := f.aluOp, memWr := false, aluSrc := 0b010
        regWr := true, signExt := false } := by
  rw [control, controlTable, if_pos h.1]
  exact (controlR_variable_shift _ f h.2).2

/-- The ALU shifts by an amount of five bits.  Its arithmetic shift is the logical one. -/
theorem alu_variable_shift (f : VarShift) (a : Word) (n : BitVec 5) :
    (alu a (n.setWidth 32) f.aluOp).res = f.shift a n.toNat := by
  cases f with
  | sllv => exact alu_shOp a n .sll
  | srlv => exact alu_shOp a n .srl
  | srav => exact alu_shOp a n .srl

section Pipeline

variable {iss : IssPipeReg} {f : VarShift} (h : IsVarShift iss.instr f)

include h

/-- The issue stage, as far as the write depends on it. -/
theorem issueStage_variable_shift :
    let d := issueStage false iss
    d.rs = rt iss.instr ∧ d.rd = rd iss.instr ∧ d.regWr = true ∧ d.memToReg = false ∧
      d.useLinkReg = false ∧ d.aluOp = f.aluOp ∧ d.aluSrc = 0b010 ∧
      d.shamt = shamt iss.instr := by
  have hctl := control_variable_shift h
  have hjalr : (funct iss.instr == Defines.JALR) = false :=
    beq_false_of_ne (controlR_variable_shift _ f h.2).1
  have hlink : (issueStage false iss).useLinkReg = false := by
    simp only [issueStage, decode, decodeFields_eq, h.1, hjalr]
    simp
  have hrs : (issueStage false iss).rs = if (control (op iss.instr) (funct iss.instr)).regSrc
      then rt iss.instr else rs iss.instr := rfl
  have hrd : (issueStage false iss).rd = if (issueStage false iss).useLinkReg then 0x1F else
      if (control (op iss.instr) (funct iss.instr)).regDst then rd iss.instr
      else rt iss.instr := rfl
  refine ⟨?_, ?_, congrArg Controls.regWr hctl, congrArg Controls.memToReg hctl, hlink,
    congrArg Controls.aluOp hctl, congrArg Controls.aluSrc hctl, rfl⟩
  · rw [hrs, hctl]
    rfl
  · rw [hrd, hlink, hctl]
    rfl

/-- The write of the pipeline, once the word is in the write-back stage. -/
theorem regFileNext_variable_shift (hrd : rd iss.instr ≠ 0) {a b : Word} {dmem : Dmem}
    {s : Top} (hwb : s.wb = ((issueStage false iss).toMem a b).toWb dmem) :
    s.regFileNext = Function.update s.regFile (rd iss.instr)
      (f.shift a (shamt iss.instr).toNat) := by
  obtain ⟨-, hdest, hwr, hload, hlink, hop, hsrc, hshamt⟩ := issueStage_variable_shift h
  have hres : ((issueStage false iss).alu a b).res = f.shift a (shamt iss.instr).toNat := by
    rw [IssueOut.alu, hop, hsrc, hshamt]
    exact alu_variable_shift f a _
  have hen : s.wb.regWr = true := by
    rw [hwb]
    exact hwr
  have hwbRd : s.wb.rd = rd iss.instr := by
    rw [hwb]
    exact hdest
  have hdata : s.wb.wrData = f.shift a (shamt iss.instr).toNat := by
    rw [hwb]
    show wrDataRf (issueStage false iss).useLinkReg _ (issueStage false iss).rd
      (issueStage false iss).memToReg _ ((issueStage false iss).alu a b).res = _
    rw [hlink, hdest, hload, hres]
    exact if_pos hrd
  rw [Top.regFileNext, hen, hwbRd, hdata, Bool.true_or, if_pos rfl]

end Pipeline

/-- The pipeline writes the value of `rt`, shifted by the amount in the word. -/
theorem writesBack_shift_iff {w : Word} {f : VarShift} (h : IsVarShift w f) (hrd : rd w ≠ 0)
    (regs : BitVec 5 → Word) (result : Word) :
    WritesBack w regs result ↔ f.shift (regs (rt w)) (shamt w).toNat = result := by
  constructor
  · intro hwrites
    let iss : IssPipeReg := { instr := w }
    obtain ⟨hrs, -⟩ := issueStage_variable_shift (show IsVarShift iss.instr f from h)
    -- nothing older is in flight
    let s : Top :=
      { Top.cleared fun _ => 0 with
        ex :=
          { toIssueOut := issueStage false iss
            rDataP1 := regs (issueStage false iss).rs
            rDataP2 := regs (issueStage false iss).rt } }
    have hop1 : s.rDataP1 = regs (issueStage false iss).rs := by
      simp [Top.rDataP1, fwdSelect, s, Top.cleared]
    have hop2 : s.rDataP2 = regs (issueStage false iss).rt := by
      simp [Top.rDataP2, fwdSelect, s, Top.cleared]
    let retiring := (s.clock (fun _ => 0) false).clock (fun _ => 0) false
    have hnext : retiring.regFileNext = Function.update retiring.regFile (rd w) result :=
      hwrites (fun _ => 0) iss s rfl rfl hop1 hop2
    have hwb : retiring.wb =
        ((issueStage false iss).toMem s.rDataP1 s.rDataP2).toWb
          (s.clock (fun _ => 0) false).dmem := rfl
    rw [regFileNext_variable_shift (show IsVarShift iss.instr f from h) hrd hwb] at hnext
    have hat := congrFun hnext (rd w)
    rw [Function.update_self, Function.update_self, hop1, hrs] at hat
    exact hat
  · rintro rfl imem iss s rfl hex hop1 hop2 retiring
    obtain ⟨hrs, -⟩ := issueStage_variable_shift h
    have hwb : ((s.clock imem false).clock imem false).wb =
        ((issueStage false iss).toMem s.rDataP1 s.rDataP2).toWb (s.clock imem false).dmem := by
      rw [← hex]
      rfl
    have hport : s.ex.rs = rt iss.instr := by
      rw [hex]
      exact hrs
    rw [regFileNext_variable_shift h hrd hwb, hop1, hport]

/-! ## Against the simulator -/

/-- The pipeline writes what the simulator writes exactly when the word holds the amount
that is in the register, or when the smaller of the two leaves nothing of the value. -/
theorem variable_shift_iff {w : Word} {f : VarShift} (h : IsVarShift w f) (hrd : rd w ≠ 0)
    {s : Sim} (hw : s.memRead s.current.pc = w)
    (hamount : (s.current.regs (rs w)).toNat < 32) :
    WritesBack w s.current.regs ((cycle s).current.regs (rd w)) ↔
      (shamt w).toNat = (s.current.regs (rs w)).toNat ∨
        f.clears (s.current.regs (rt w))
          (min (shamt w).toNat (s.current.regs (rs w)).toNat) := by
  rw [writesBack_shift_iff h hrd, cycle_variable_shift h hrd hw, Nat.mod_eq_of_lt hamount]
  exact f.shift_eq_iff _ _ _

/-- A simulator with the word at address 0, the value in register 1 and the amount in
register 2. -/
def shifting (w value amount : Word) : Sim :=
  loadProgram (withOperands value amount) [(0, w)]

/-- `SLLV r3, r1, r2` of 5 by 2, with 2 in the shift amount of the word as well. -/
theorem variable_shift_same_amount :
    let s := shifting 0x00411884 5 2
    WritesBack 0x00411884 s.current.regs ((cycle s).current.regs 3) :=
  (variable_shift_iff (show IsVarShift 0x00411884 .sllv by decide) (by decide)
    (s := shifting 0x00411884 5 2) (by decide +kernel) (by decide +kernel)).mpr
    (.inl (by decide +kernel))

/-- `SLLV r3, r1, r2` of 1 by 4 writes 1. -/
theorem variable_shift_by_shamt :
    ¬ ∀ (w : Word) (f : VarShift) (s : Sim), IsVarShift w f → rd w ≠ 0 →
      s.memRead s.current.pc = w → (s.current.regs (rs w)).toNat < 32 →
      WritesBack w s.current.regs ((cycle s).current.regs (rd w)) := by
  intro hall
  have hshift : IsVarShift 0x00411804 .sllv := by decide
  have hrd : rd 0x00411804 ≠ 0 := by decide
  have hword : (shifting 0x00411804 1 4).memRead (shifting 0x00411804 1 4).current.pc =
      0x00411804 := by decide +kernel
  have hwrites := hall 0x00411804 .sllv (shifting 0x00411804 1 4) hshift hrd hword
    (by decide +kernel)
  rw [writesBack_shift_iff hshift hrd, cycle_variable_shift hshift hrd hword] at hwrites
  exact absurd hwrites (by decide +kernel)

end SimpleCpu.Mips
