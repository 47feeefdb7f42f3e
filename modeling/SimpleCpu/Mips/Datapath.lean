import SimpleCpu.Bits.Fields
import SimpleCpu.Mips.Alu
import SimpleCpu.Mips.Decode

/-!
# What the datapaths make of an instruction

The control word, the registers and the operands of every instruction, proved of the
decoder and the control table for the words that encode it.  Both MIPS datapaths use
these; neither the default row of the table nor the treatment of the all-zero shift
matters here.
-/

namespace SimpleCpu.Mips

open SimpleCpu.Bits SimpleCpu.Mips.Isa

/-! ## Tables -/

/-- The control word of an instruction. -/
def Isa.Instr.controls : Instr → Controls
  | .r f .. =>
      { regSrc := false, regDst := true, jump := false, branch := false, memRead := false
        memToReg := false, aluOp := Mips.aluOp f, memWr := false, aluSrc := 0b000
        regWr := true, signExt := false }
  | .sh f .. =>
      { regSrc := true, regDst := true, jump := false, branch := false, memRead := false
        memToReg := false, aluOp := shOp f, memWr := false, aluSrc := 0b010
        regWr := true, signExt := false }
  | .i f .. =>
      { regSrc := false, regDst := false, jump := false, branch := false
        memRead := false, memToReg := false, aluOp := Mips.aluOp f.rFun, memWr := false
        aluSrc := 0b001, regWr := true
        signExt := f ∈ [IFun.addi, IFun.addiu, IFun.slti, IFun.sltiu] }
  | .lw .. =>
      { regSrc := false, regDst := false, jump := false, branch := false, memRead := true
        memToReg := true, aluOp := Mips.aluOp .add, memWr := false, aluSrc := 0b001
        regWr := true, signExt := true }
  | .sw .. =>
      { regSrc := false, regDst := false, jump := false, branch := false
        memRead := false, memToReg := false, aluOp := Mips.aluOp .add, memWr := true
        aluSrc := 0b001, regWr := false, signExt := true }
  | .b .. =>
      { regSrc := false, regDst := false, jump := false, branch := true, memRead := false
        memToReg := false, aluOp := Mips.aluOp .sub, memWr := false, aluSrc := 0b000
        regWr := false, signExt := true }
  | .bz f .. =>
      { regSrc := false, regDst := false, jump := false, branch := true, memRead := false
        memToReg := false
        aluOp := Mips.aluOp (if f ∈ [ZFun.blez, ZFun.bgtz] then .add else .sub)
        memWr := false, aluSrc := 0b100, regWr := false, signExt := true }
  | .j .. =>
      { regSrc := false, regDst := false, jump := true, branch := false, memRead := false
        memToReg := false, aluOp := Mips.aluOp .add, memWr := false, aluSrc := 0b001
        regWr := false, signExt := true }
  | .jal .. =>
      { regSrc := false, regDst := false, jump := true, branch := false, memRead := false
        memToReg := false, aluOp := Mips.aluOp .add, memWr := false, aluSrc := 0b001
        regWr := true, signExt := true }

/-- The instruction writes the link register. -/
def Isa.Instr.links : Instr → Bool
  | .bz f .. => f.links
  | .jal .. => true
  | _ => false

def Isa.Instr.isJump : Instr → Bool
  | .j .. | .jal .. => true
  | _ => false

def Isa.Instr.isBranch : Instr → Bool
  | .b .. | .bz .. => true
  | _ => false

/-- Rows of the inner table for register operations. -/
theorem controlR_r : ∀ fn : BitVec 6, ∀ f ∈ rFun fn,
    Controls.ofBits (controlR fn) = (Instr.r f 0 0 0).controls := by
  decide +kernel

/-- Rows of the inner table for shifts. -/
theorem controlR_sh : ∀ fn : BitVec 6, ∀ f ∈ shFun fn,
    Controls.ofBits (controlR fn) = (Instr.sh f 0 0 0).controls := by
  decide +kernel

/-- Rows of the outer table for immediate operations. -/
theorem controlRow_i : ∀ o : BitVec 6, ∀ f ∈ iFun o,
    o ≠ 0 ∧ (controlRow o).map Controls.ofBits = some (Instr.i f 0 0 0).controls := by
  decide +kernel

/-- Rows of the outer table for the comparing branches. -/
theorem controlRow_b : ∀ o : BitVec 6, ∀ f ∈ brnFun o,
    o ≠ 0 ∧ (controlRow o).map Controls.ofBits = some (Instr.b f 0 0 0).controls := by
  decide +kernel

/-- Rows of the outer table for the branches on a sign. -/
theorem controlRow_bz : ∀ (o : BitVec 6) (v : BitVec 5), ∀ f ∈ zFun o v,
    o ≠ 0 ∧ (controlRow o).map Controls.ofBits = some (Instr.bz f 0 0).controls := by
  decide +kernel

/-- A row of the outer table is the control word, whatever the default. -/
theorem controlTable_of_row {o : BitVec 6} {c : Controls} (other : BitVec 18)
    (fn : BitVec 6) (h : o ≠ 0 ∧ (controlRow o).map Controls.ofBits = some c) :
    Controls.ofBits (controlTable other o fn) = c := by
  obtain ⟨row, hrow, rfl⟩ := Option.map_eq_some_iff.mp h.2
  rw [controlTable, if_neg h.1, hrow]
  rfl

section Tables

variable {w : BitVec 32} {x : Instr}

/-- The control word of an instruction that is encoded. -/
theorem controls_eq (h : Encodes w x) (other : BitVec 18) :
    Controls.ofBits (controlTable other (op w) (funct w)) = x.controls := by
  cases h with
  | r hop hf =>
      rw [hop]
      exact controlR_r _ _ hf
  | sh hop hf =>
      rw [hop]
      exact controlR_sh _ _ hf
  | i hf => exact controlTable_of_row _ _ (controlRow_i _ _ hf)
  | b hf => exact controlTable_of_row _ _ (controlRow_b _ _ hf)
  | bz hf => exact controlTable_of_row _ _ (controlRow_bz _ _ _ hf)
  | lw hop | sw hop | j hop | jal hop =>
      rw [hop]
      exact controlTable_of_row _ _ ⟨by decide, rfl⟩

theorem control_eq (h : Encodes w x) : control (op w) (funct w) = x.controls :=
  controls_eq h _

theorem controlSingleCycle_eq (h : Encodes w x) :
    controlSingleCycle (op w) (funct w) = x.controls :=
  controls_eq h _

/-! ## Fields -/

/-- The decoder reads the fields of a word. -/
theorem decodeFields_eq (w : BitVec 32) (r : Bool) : decodeFields w r =
    { rt := rt w, rs := rs w, rd := rd w, op := op w, funct := funct w, shamt := shamt w
      target := target w, imm := imm16 w, isRType := r
      isIType := op w != 0 && (op w != Defines.J && op w != Defines.JAL)
      isJType := op w == Defines.J || op w == Defines.JAL
      useLinkReg :=
        (op w == Defines.BVAR && (rt w == Defines.BLTZAL || rt w == Defines.BGEZAL)) ||
          (r && funct w == Defines.JALR) ||
          ((op w == Defines.J || op w == Defines.JAL) && op w == Defines.JAL) } := rfl

/-- No register operation or shift has the function code of `JALR`. -/
theorem rFun_ne_jalr : ∀ fn : BitVec 6, ∀ f ∈ rFun fn, (fn == Defines.JALR) = false := by
  decide

theorem shFun_ne_jalr : ∀ fn : BitVec 6, ∀ f ∈ shFun fn, (fn == Defines.JALR) = false := by
  decide

/-- Immediate operations and comparing branches are I-type and have no variants. -/
theorem iFun_op : ∀ o : BitVec 6, ∀ f ∈ iFun o, o ≠ 0 ∧ (o == Defines.BVAR) = false ∧
    (o == Defines.J) = false ∧ (o == Defines.JAL) = false := by
  decide

theorem brnFun_op : ∀ o : BitVec 6, ∀ f ∈ brnFun o, o ≠ 0 ∧ (o == Defines.BVAR) = false ∧
    (o == Defines.J) = false ∧ (o == Defines.JAL) = false := by
  decide

/-- The variants of `BVAR` that link. -/
theorem zFun_op : ∀ (o : BitVec 6) (v : BitVec 5), ∀ f ∈ zFun o v, o ≠ 0 ∧
    (o == Defines.BVAR && (v == Defines.BLTZAL || v == Defines.BGEZAL)) = f.links ∧
    (o == Defines.J) = false ∧ (o == Defines.JAL) = false := by
  decide +kernel

/-- The link signal. -/
theorem useLinkReg_eq (h : Encodes w x) {r : Bool} (hr : r = true → op w = 0) :
    (decodeFields w r).useLinkReg = x.links := by
  rw [decodeFields_eq]
  have hr' : op w ≠ 0 → r = false := fun hop => by
    by_contra hne
    exact hop (hr (by simpa using hne))
  cases h with
  | r hop hf =>
      simp only [hop, rFun_ne_jalr _ _ hf, Instr.links]
      simp
  | sh hop hf =>
      simp only [hop, shFun_ne_jalr _ _ hf, Instr.links]
      simp
  | lw hop | sw hop | j hop | jal hop =>
      simp [hr' (by rw [hop]; decide), hop, Instr.links]
  | i hf =>
      obtain ⟨h0, hv, hj, hl⟩ := iFun_op _ _ hf
      simp only [hr' h0, hv, hj, hl, Instr.links]
      simp
  | b hf =>
      obtain ⟨h0, hv, hj, hl⟩ := brnFun_op _ _ hf
      simp only [hr' h0, hv, hj, hl, Instr.links]
      simp
  | bz hf =>
      obtain ⟨h0, hv, hj, hl⟩ := zFun_op _ _ _ hf
      simp only [hr' h0, hv, hj, hl, Instr.links]
      simp

/-- The register an instruction writes, as far as it writes one. -/
def Isa.Instr.dest : Instr → BitVec 5
  | .r _ rd .. | .sh _ rd .. => rd
  | .i _ rt .. | .lw rt .. => rt
  | .bz .. | .jal .. => 31
  | .sw .. | .b .. | .j .. => 0

theorem writeReg_eq (h : Encodes w x) {r : Bool} (hr : r = true → op w = 0)
    (hw : x.controls.regWr = true ∨ x.links = true) :
    (decodeFields w r).writeReg x.controls = x.dest := by
  unfold Decode.writeReg
  rw [useLinkReg_eq h hr, decodeFields_eq]
  cases h <;> simp [Instr.controls, Instr.links, Instr.dest] at hw ⊢
  rw [hw]
  simp

/-- The register behind the first operand. -/
def Isa.Instr.source1 (w : BitVec 32) : Instr → BitVec 5
  | .sh .. => rt w
  | _ => rs w

theorem readReg1_eq (h : Encodes w x) (r : Bool) :
    (decodeFields w r).readReg1 x.controls = x.source1 w := by
  unfold Decode.readReg1
  rw [decodeFields_eq]
  cases h <;> rfl

/-- The second operand of the ALU, for instructions that compute with it. -/
def Isa.Instr.operand2 (v2 : BitVec 32) : Instr → BitVec 32
  | .r .. | .b .. => v2
  | .sh _ _ _ shamt => shamt.setWidth 32
  | .i f _ _ imm => f.extImm imm
  | .lw _ _ imm | .sw _ _ imm => imm.signExtend 32
  | .bz .. => 0
  | .j t | .jal t => (t.extractLsb' 0 16).signExtend 32

theorem imm16_eq (w : BitVec 32) : (target w).extractLsb' 0 16 = imm16 w := by
  apply BitVec.eq_of_getLsbD_eq
  intro i hi
  simp [target, imm16, hi]

theorem aluOperand2_eq (h : Encodes w x) (r : Bool) (v2 : BitVec 32) :
    aluOperand2 x.controls.aluSrc (decodeFields w r).shamt
      ((decodeFields w r).signImm x.controls.signExt) v2 = x.operand2 v2 := by
  rw [decodeFields_eq]
  unfold aluOperand2 Decode.signImm
  cases h with
  | r | sh | lw | sw | b | bz => simp [Instr.controls, Instr.operand2]
  | @i f hf => cases f <;> simp [Instr.controls, Instr.operand2, IFun.extImm]
  | j | jal => simp [Instr.controls, Instr.operand2, imm16_eq]

/-! ## Results -/

/-- What the ALU computes. -/
def Isa.Instr.aluRes (v1 v2 : BitVec 32) : Instr → BitVec 32
  | .r f .. => f.eval v1 v2
  | .sh f _ _ shamt => f.eval v1 shamt
  | .i f _ _ imm => f.rFun.eval v1 (f.extImm imm)
  | .lw _ _ imm | .sw _ _ imm => v1 + imm.signExtend 32
  | .b .. => v1 - v2
  | .bz .. => v1
  | .j t | .jal t => v1 + (t.extractLsb' 0 16).signExtend 32

theorem alu_res_eq (x : Instr) (v1 v2 : BitVec 32) :
    (alu v1 (x.operand2 v2) x.controls.aluOp).res = x.aluRes v1 v2 := by
  cases x with
  | sh f rd rt shamt => exact alu_shOp v1 shamt f
  | bz f =>
      have hsum : RFun.eval v1 0 (if f ∈ [ZFun.blez, ZFun.bgtz] then .add else .sub) = v1 := by
        split
        · exact BitVec.add_zero v1
        · exact BitVec.sub_zero v1
      exact (alu_aluOp v1 0 _).trans hsum
  | r f | i f => exact alu_aluOp _ _ _
  | lw | sw | j | jal => exact alu_aluOp _ _ .add
  | b => exact alu_aluOp _ _ .sub

/-- The single-cycle processor computes the same, except for signed comparisons. -/
theorem aluSingleCycle_res_eq (x : Instr) (v1 v2 : BitVec 32)
    (hr : ∀ rd rs rt, x ≠ .r .slt rd rs rt) (hi : ∀ rt rs imm, x ≠ .i .slti rt rs imm) :
    (aluSingleCycle v1 (x.operand2 v2) x.controls.aluOp).res = x.aluRes v1 v2 := by
  cases x with
  | sh f rd rt shamt => exact aluSingleCycle_shOp v1 shamt f
  | bz f =>
      have hsum : RFun.eval v1 0 (if f ∈ [ZFun.blez, ZFun.bgtz] then .add else .sub) = v1 := by
        split
        · exact BitVec.add_zero v1
        · exact BitVec.sub_zero v1
      refine (aluSingleCycle_aluOp v1 0 _ ?_).trans hsum
      split <;> decide
  | r f rd rs rt =>
      refine aluSingleCycle_aluOp _ _ _ ?_
      rintro rfl
      exact hr _ _ _ rfl
  | i f rt rs imm =>
      refine aluSingleCycle_aluOp _ _ _ ?_
      cases f with
      | slti => exact absurd rfl (hi rt rs imm)
      | addi | addiu | sltiu | andi | ori | xori => decide
  | lw | sw | j | jal => exact aluSingleCycle_aluOp _ _ .add (by decide)
  | b => exact aluSingleCycle_aluOp _ _ .sub (by decide)

/-- The result of an instruction, as the datapath computes it. -/
theorem result_eq (hx : Encodes w x) {regs : BitVec 5 → BitVec 32}
    {load : BitVec 32 → BitVec 32} (pc : BitVec 32) :
    x.result load pc regs =
      if x.controls.regWr || x.links then
        some (x.dest,
          if x.links then pc + 4
          else if x.controls.memToReg then
            load (x.aluRes (regs (x.source1 w)) (regs (rt w)) &&& 0xFFFFFFFC)
          else x.aluRes (regs (x.source1 w)) (regs (rt w)))
      else none := by
  cases hx with
  | @bz f hf =>
      cases hl : f.links <;>
        simp [Instr.result, Instr.controls, Instr.links, Instr.dest, hl]
  | r | sh | i | lw | sw | b | j | jal =>
      simp [Instr.result, Instr.controls, Instr.links, Instr.dest, Instr.aluRes,
        Instr.source1, wordAddr]

/-- What is written to the destination: zero if that is register 0. -/
theorem wrDataRf_dest (x : Instr) (nextSeqPc readData resAlu : BitVec 32) :
    wrDataRf x.links nextSeqPc x.dest x.controls.memToReg readData resAlu =
      if x.dest ≠ 0 then
        if x.links then nextSeqPc else if x.controls.memToReg then readData else resAlu
      else 0 := by
  unfold wrDataRf
  cases hl : x.links with
  | false => rfl
  | true =>
      have h31 : x.dest ≠ 0 := by
        cases x <;> simp [Instr.links, Instr.dest] at hl ⊢
      exact (if_pos h31).symm

/-- Writing zero to register 0 is not writing it. -/
theorem update_eq_writeReg {regs : BitVec 5 → BitVec 32} (h0 : regs 0 = 0) (rd : BitVec 5)
    (v : BitVec 32) :
    Function.update regs rd (if rd ≠ 0 then v else 0) = writeReg regs rd v := by
  unfold writeReg
  by_cases hrd : rd = 0
  · rw [if_pos hrd, if_neg (by simpa using hrd), hrd, ← h0, Function.update_eq_self]
  · rw [if_neg hrd, if_pos hrd]

/-! ## Branches and jumps -/

/-- A branch leaves the sequence, on these operands. -/
def Isa.Instr.taken (v1 v2 : BitVec 32) : Instr → Bool
  | .b f .. => f.eval v1 v2
  | .bz f .. => f.eval v1
  | _ => false

/-- What a comparing branch looks at. -/
def brnFlags (z : Bool) : BrnFun → Bool
  | .beq => z
  | .bne => !z

/-- What a branch on a sign looks at. -/
def zFlags (z n : Bool) : ZFun → Bool
  | .blez => n || z
  | .bgtz => !(n || z)
  | .bltz | .bltzal => n && !z
  | .bgez | .bgezal => !n || z

/-- Rows of the branch decision. -/
theorem branchTaken_b : ∀ o : BitVec 6, ∀ f ∈ brnFun o, ∀ (v : BitVec 5) (z n : Bool),
    branchTaken true o v z n = brnFlags z f := by
  decide +kernel

theorem branchTaken_bz : ∀ (o : BitVec 6) (v : BitVec 5), ∀ f ∈ zFun o v, ∀ z n : Bool,
    branchTaken true o v z n = zFlags z n f := by
  decide +kernel

/-- The flags of a number decide the branches on its sign. -/
theorem zFlags_eq (a : BitVec 32) (f : ZFun) : zFlags (a == 0) (a.slt 0) f = f.eval a := by
  have hsle : a.sle 0 = (a.slt 0 || a == 0) := by
    rw [Bool.eq_iff_iff]
    simp only [BitVec.sle, BitVec.slt, Bool.or_eq_true, decide_eq_true_eq, beq_iff_eq,
      ← BitVec.toInt_inj]
    omega
  have hzero : (a == 0) = true → a.slt 0 = false := by
    intro h
    rw [beq_iff_eq.mp h]
    decide
  cases f with
  | blez => exact hsle.symm
  | bgtz => exact congrArg (!·) hsle.symm
  | bltz | bltzal =>
      show (a.slt 0 && !(a == 0)) = a.slt 0
      cases hz : a == 0 with
      | true => rw [hzero hz, Bool.false_and]
      | false => rw [Bool.not_false, Bool.and_true]
  | bgez | bgezal =>
      show (!a.slt 0 || a == 0) = !a.slt 0
      cases hz : a == 0 with
      | true => rw [hzero hz, Bool.or_true, Bool.not_false]
      | false => rw [Bool.or_false]

/-- The branch decision, from flags that describe the operands. -/
theorem branchTaken_eq (h : Encodes w x) (v1 v2 : BitVec 32) {z n : Bool}
    (hz : x.isBranch = true → z = (v1 == x.operand2 v2))
    (hn : x.isBranch = true → x.operand2 v2 = 0 → n = v1.slt 0) :
    branchTaken x.controls.branch (op w) (rt w) z n = x.taken v1 v2 := by
  cases h with
  | @b f hf =>
      rw [hz rfl]
      refine (branchTaken_b _ _ hf _ _ _).trans ?_
      cases f <;> rfl
  | @bz f hf =>
      rw [hz rfl, hn rfl rfl]
      exact (branchTaken_bz _ _ _ hf _ _).trans (zFlags_eq v1 f)
  | r | sh | i | lw | sw | j | jal => rfl

/-- The concatenation is four bits short: the segment starts at bit 26, and the shift has
pushed the top bits of the target out. -/
theorem nextJmpPc_toNat (nextSeqPc w : BitVec 32) :
    (nextJmpPc nextSeqPc w).toNat =
      nextSeqPc.toNat / 2 ^ 28 * 2 ^ 26 + (target w).toNat * 4 % 2 ^ 26 := by
  have hpc := nextSeqPc.isLt
  unfold nextJmpPc
  rw [BitVec.toNat_setWidth, toNat_append_eq, BitVec.extractLsb'_toNat, BitVec.toNat_shiftLeft,
    Nat.shiftRight_eq_div_pow, Nat.shiftLeft_eq]
  show (_ + (target w).toNat * 2 ^ 2 % 2 ^ 26) % 2 ^ 32 = _
  omega

/-- The jump target of both datapaths is the simulator's exactly in the first segment, and
there up to 26 bits. -/
theorem nextJmpPc_eq_iff (pc w : BitVec 32) :
    nextJmpPc (pc + 4) w = jumpTarget pc (target w) ↔
      (pc + 4).toNat < 2 ^ 28 ∧ (target w).toNat < 2 ^ 24 := by
  have ht := (target w).isLt
  rw [← BitVec.toNat_inj, nextJmpPc_toNat, jumpTarget_toNat]
  omega

theorem nextJmpPc_eq {pc : BitVec 32} (hpc : pc.toNat < 2 ^ 26)
    (ht : (jumpTarget pc (target w)).toNat < 2 ^ 26) :
    nextJmpPc (pc + 4) w = jumpTarget pc (target w) := by
  have hseq : (pc + 4).toNat = pc.toNat + 4 := by
    rw [BitVec.toNat_add]
    show (pc.toNat + 4) % 2 ^ 32 = pc.toNat + 4
    omega
  rw [jumpTarget_toNat] at ht
  exact (nextJmpPc_eq_iff pc w).mpr ⟨by omega, by omega⟩

end Tables

end SimpleCpu.Mips
