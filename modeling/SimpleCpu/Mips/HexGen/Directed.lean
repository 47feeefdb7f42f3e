import SimpleCpu.Mips.HexGen.Reachable

/-!
# Directed I-type instructions

`hex_gen_instr_api.c` has one function for each I-type instruction, which tests the
immediate, makes room and calls `gen_i_instr`.  The word is a sum of shifted arguments, and
the test lets negative immediates pass.

* `fields_iff`: the fields of such a sum.
* `directed_fields_iff`: when a call makes the word that has been asked for.
-/

namespace SimpleCpu.Mips.HexGen

open SimpleCpu.Bits SimpleCpu.HexGen SimpleCpu.Iss SimpleCpu.Mips.Iss SimpleCpu.Mips.Isa

/-! ## The functions -/

/-- The generator with `err_count`. -/
structure Api where
  gen : Gen
  errCount : Nat := 0

/-- `MAX_16_BIT_IMM` -/
def max16BitImm : BitVec 32 := 0xFFFF

namespace Api

variable (s : Api) (rt rs : BitVec 5) (imm : BitVec 32) (rsVal : Option (BitVec 32))

/-- The body of the functions, with what `set_rval` leads to.  The comparison is one of
`int`. -/
def directed (opcode : BitVec 32) (set : Except Stop Api) : Except Stop Api :=
  if max16BitImm.slt imm then .ok { s with errCount := s.errCount + 1 }
  else do
    let s ← set
    let g ← s.gen.request (.i (some { opcode, rt, rs, imm }))
    return { s with gen := g }

/-- `gen_i_type_ORI (RS, R0, rs_val, 0)`, if `set_rval`. -/
def setRval : Option (BitVec 32) → Except Stop Api
  | some val => s.directed rs 0 val ORI (.ok s)
  | none => .ok s

def genITypeADDI : Except Stop Api := s.directed rt rs imm Iss.ADDI (s.setRval rs rsVal)

def genITypeADDIU : Except Stop Api := s.directed rt rs imm Iss.ADDIU (s.setRval rs rsVal)

def genITypeANDI : Except Stop Api := s.directed rt rs imm Iss.ANDI (s.setRval rs rsVal)

def genITypeBEQ : Except Stop Api := s.directed rt rs imm Iss.BEQ (s.setRval rs rsVal)

def genITypeBGTZ : Except Stop Api := s.directed rt rs imm Iss.BGTZ (s.setRval rs rsVal)

def genITypeBLEZ : Except Stop Api := s.directed rt rs imm Iss.BLEZ (s.setRval rs rsVal)

def genITypeBNE : Except Stop Api := s.directed rt rs imm Iss.BNE (s.setRval rs rsVal)

def genITypeBVAR : Except Stop Api := s.directed rt rs imm Iss.BVAR (s.setRval rs rsVal)

def genITypeBLTZ : Except Stop Api := s.directed rt rs imm Iss.BLTZ (s.setRval rs rsVal)

def genITypeBGEZ : Except Stop Api := s.directed rt rs imm Iss.BGEZ (s.setRval rs rsVal)

def genITypeBLTZAL : Except Stop Api := s.directed rt rs imm Iss.BLTZAL (s.setRval rs rsVal)

def genITypeBGEZAL : Except Stop Api := s.directed rt rs imm Iss.BGEZAL (s.setRval rs rsVal)

def genITypeLB : Except Stop Api := s.directed rt rs imm Iss.LB (s.setRval rs rsVal)

def genITypeLBU : Except Stop Api := s.directed rt rs imm Iss.LBU (s.setRval rs rsVal)

def genITypeLH : Except Stop Api := s.directed rt rs imm Iss.LH (s.setRval rs rsVal)

def genITypeLHU : Except Stop Api := s.directed rt rs imm Iss.LHU (s.setRval rs rsVal)

def genITypeLUI : Except Stop Api := s.directed rt rs imm Iss.LUI (s.setRval rs rsVal)

def genITypeLW : Except Stop Api := s.directed rt rs imm Iss.LW (s.setRval rs rsVal)

def genITypeORI : Except Stop Api := s.directed rt rs imm Iss.ORI (s.setRval rs rsVal)

def genITypeSB : Except Stop Api := s.directed rt rs imm Iss.SB (s.setRval rs rsVal)

def genITypeSH : Except Stop Api := s.directed rt rs imm Iss.SH (s.setRval rs rsVal)

def genITypeSW : Except Stop Api := s.directed rt rs imm Iss.SW (s.setRval rs rsVal)

def genITypeSLTI : Except Stop Api := s.directed rt rs imm Iss.SLTI (s.setRval rs rsVal)

def genITypeSLTIU : Except Stop Api := s.directed rt rs imm Iss.SLTIU (s.setRval rs rsVal)

def genITypeXORI : Except Stop Api := s.directed rt rs imm Iss.XORI (s.setRval rs rsVal)

end Api

/-- The functions `gen_i_type_`. -/
inductive IType where
  | addi | addiu | andi | beq | bgtz | blez | bne | bvar | bltz | bgez
  | bltzal | bgezal | lb | lbu | lh | lhu | lui | lw | ori | sb
  | sh | sw | slti | sltiu | xori
  deriving DecidableEq, Repr

def IType.call (s : Api) (rt rs : BitVec 5) (imm : BitVec 32) (rsVal : Option (BitVec 32)) :
    IType → Except Stop Api
  | .addi => s.genITypeADDI rt rs imm rsVal
  | .addiu => s.genITypeADDIU rt rs imm rsVal
  | .andi => s.genITypeANDI rt rs imm rsVal
  | .beq => s.genITypeBEQ rt rs imm rsVal
  | .bgtz => s.genITypeBGTZ rt rs imm rsVal
  | .blez => s.genITypeBLEZ rt rs imm rsVal
  | .bne => s.genITypeBNE rt rs imm rsVal
  | .bvar => s.genITypeBVAR rt rs imm rsVal
  | .bltz => s.genITypeBLTZ rt rs imm rsVal
  | .bgez => s.genITypeBGEZ rt rs imm rsVal
  | .bltzal => s.genITypeBLTZAL rt rs imm rsVal
  | .bgezal => s.genITypeBGEZAL rt rs imm rsVal
  | .lb => s.genITypeLB rt rs imm rsVal
  | .lbu => s.genITypeLBU rt rs imm rsVal
  | .lh => s.genITypeLH rt rs imm rsVal
  | .lhu => s.genITypeLHU rt rs imm rsVal
  | .lui => s.genITypeLUI rt rs imm rsVal
  | .lw => s.genITypeLW rt rs imm rsVal
  | .ori => s.genITypeORI rt rs imm rsVal
  | .sb => s.genITypeSB rt rs imm rsVal
  | .sh => s.genITypeSH rt rs imm rsVal
  | .sw => s.genITypeSW rt rs imm rsVal
  | .slti => s.genITypeSLTI rt rs imm rsVal
  | .sltiu => s.genITypeSLTIU rt rs imm rsVal
  | .xori => s.genITypeXORI rt rs imm rsVal

/-! ## What is asked for -/

/-- The code of the function: the opcode, or the variant of the branches that have none of
their own. -/
def IType.code : IType → BitVec 6
  | .addi => 0x08 | .addiu => 0x09 | .andi => 0x0c | .beq => 0x04 | .bgtz => 0x07
  | .blez => 0x06 | .bne => 0x05 | .bvar => 0x01 | .bltz => 0x00 | .bgez => 0x01
  | .bltzal => 0x10 | .bgezal => 0x11 | .lb => 0x20 | .lbu => 0x24 | .lh => 0x21
  | .lhu => 0x25 | .lui => 0x0f | .lw => 0x23 | .ori => 0x0d | .sb => 0x28 | .sh => 0x29
  | .sw => 0x2b | .slti => 0x0a | .sltiu => 0x0b | .xori => 0x0e

/-- The branches whose code goes into the `rt` field. -/
def IType.isVariant : IType → Bool
  | .bltz | .bgez | .bltzal | .bgezal => true
  | _ => false

/-- The opcode and the `rt` field of the instruction. -/
def IType.op (t : IType) : BitVec 6 := if t.isVariant then 0x01 else t.code

def IType.rtField (t : IType) (rt : BitVec 5) : BitVec 5 :=
  if t.isVariant then t.code.setWidth 5 else rt

/-- The word has the fields that the call asks for. -/
structure HasFields (w : BitVec 32) (o : BitVec 6) (rs rt : BitVec 5) (imm : BitVec 32) :
    Prop where
  op : Isa.op w = o
  rs : Isa.rs w = rs
  rt : Isa.rt w = rt
  imm : imm16 w = imm.setWidth 16

/-! ## Sums -/

section Sums

variable (rs rt rs' rt' : BitVec 5) (imm : BitVec 32)

/-- What is above the low half of the immediate is added to the fields. -/
theorem iWord_eq_append (o : BitVec 6) :
    (IArgs.mk (o.setWidth 32) rt rs imm).word =
      ((o ++ rs ++ rt : BitVec 16) + imm.extractLsb' 16 16) ++ imm.setWidth 16 := by
  have himm := imm.isLt
  have ho := o.isLt
  have hrs := rs.isLt
  have hrt := rt.isLt
  unfold IArgs.word
  dsimp only
  rw [shl_add_shl _ rs 21, shl_add_shl _ rt 16]
  apply BitVec.eq_of_toNat_eq
  rw [toNat_append_eq, BitVec.toNat_add, BitVec.toNat_add, BitVec.toNat_shiftLeft,
    BitVec.toNat_setWidth, BitVec.toNat_setWidth, toNat_append_eq, toNat_append_eq,
    BitVec.extractLsb'_toNat, Nat.shiftLeft_eq, Nat.shiftRight_eq_div_pow]
  omega

/-- The fields of a word whose upper half is given. -/
theorem fields_iff (o : BitVec 6) (high : BitVec 16) (w : BitVec 32)
    (hw : w = high ++ imm.setWidth 16) :
    HasFields w o rs rt imm ↔ high = o ++ rs ++ rt := by
  have himm : imm16 w = imm.setWidth 16 := by
    subst hw
    simp (disch := omega) only [imm16, BitVec.extractLsb'_append_eq_of_add_le,
      BitVec.extractLsb'_eq_self]
  have hhigh : high = Isa.op w ++ Isa.rs w ++ Isa.rt w := by
    subst hw
    apply BitVec.eq_of_getLsbD_eq
    intro i hi
    simp only [Isa.op, Isa.rs, Isa.rt, BitVec.getLsbD_append, BitVec.getLsbD_extractLsb']
    interval_cases i <;> simp
  constructor
  · rintro ⟨rfl, rfl, rfl, -⟩
    exact hhigh
  · intro h
    have happ : Isa.op w ++ Isa.rs w ++ Isa.rt w = o ++ rs ++ rt := hhigh.symm.trans h
    have hnat := congrArg BitVec.toNat happ
    rw [toNat_append_eq, toNat_append_eq, toNat_append_eq, toNat_append_eq] at hnat
    have h1 := (Isa.rs w).isLt
    have h2 := (Isa.rt w).isLt
    have h3 := rs.isLt
    have h4 := rt.isLt
    exact ⟨BitVec.eq_of_toNat_eq (by omega), BitVec.eq_of_toNat_eq (by omega),
      BitVec.eq_of_toNat_eq (by omega), himm⟩

end Sums

/-! ## Calls -/

section Calls

variable {s s' : Api} {rt rs : BitVec 5} {imm : BitVec 32}

theorem IType.call_eq (t : IType) (s : Api) (rt rs : BitVec 5) (imm : BitVec 32)
    (rsVal : Option (BitVec 32)) :
    t.call s rt rs imm rsVal =
      s.directed rt rs imm (t.code.setWidth 32) (s.setRval rs rsVal) := by
  cases t <;> rfl

/-- A call that reports no error is a request. -/
theorem call_ok {t : IType} (h : t.call s rt rs imm none = .ok s')
    (herr : s'.errCount = s.errCount) :
    imm.toInt ≤ 0xFFFF ∧
      s.gen.request (.i (some { opcode := t.code.setWidth 32, rt, rs, imm })) = .ok s'.gen := by
  rw [t.call_eq] at h
  unfold Api.directed at h
  split at h
  next =>
      obtain rfl := Except.ok.inj h
      exact absurd herr (Nat.succ_ne_self _)
  next hle =>
      obtain ⟨s₁, hset, h⟩ := bind_ok h
      obtain rfl := Except.ok.inj hset
      obtain ⟨g, hreq, h⟩ := bind_ok h
      obtain rfl := Except.ok.inj h
      refine ⟨?_, hreq⟩
      rw [BitVec.slt_iff_toInt_lt] at hle
      exact Int.not_lt.mp hle

/-- What `gen_i_instr` makes of the arguments.  The code of `BVAR` is that of `BGEZ`. -/
theorem variant_eq (t : IType) (rt rs : BitVec 5) (imm : BitVec 32) :
    (IArgs.mk (t.code.setWidth 32) rt rs imm).variant =
      { opcode := t.op.setWidth 32, rt := if t = .bvar then 1 else t.rtField rt, rs, imm } := by
  cases t <;> rfl

/-- The word of a call. -/
def IType.word (t : IType) (rt rs : BitVec 5) (imm : BitVec 32) : BitVec 32 :=
  (IArgs.mk (t.code.setWidth 32) rt rs imm).variant.word

theorem placed_of_call {ok : Gen → Request → Prop} {t : IType} (hrun : Run ok s.gen)
    (h : t.call s rt rs imm none = .ok s') (herr : s'.errCount = s.errCount) :
    ∃ g, s.gen.makeRoom = .ok g ∧ Placed g (t.word rt rs imm) g.cur s'.gen := by
  obtain ⟨-, hreq⟩ := call_ok h herr
  obtain ⟨-, g, w, hroom, -, -, hw, hp⟩ := request_placed hrun.between hreq
  cases hw
  exact ⟨g, hroom, hp⟩

/-- The fields are right unless the immediate is negative, or the call is one for `BVAR`
that asks for another `rt` than 1.  For `BVAR` one error can make up for the other. -/
theorem word_fields_iff (t : IType) (rt rs : BitVec 5) (himm : imm.toInt ≤ 0xFFFF) :
    HasFields (t.word rt rs imm) t.op rs (t.rtField rt) imm ↔
      0 ≤ imm.toInt ∧ (t = .bvar → rt = 1) ∨
        t = .bvar ∧ rt = 0 ∧ -0x10000 ≤ imm.toInt ∧ imm.toInt < 0 := by
  have hword : t.word rt rs imm =
      ((t.op ++ rs ++ (if t = .bvar then 1 else t.rtField rt) : BitVec 16) +
        imm.extractLsb' 16 16) ++ imm.setWidth 16 := by
    unfold IType.word
    rw [variant_eq]
    exact iWord_eq_append _ _ _ _
  have hhigh : (imm.extractLsb' 16 16).toNat = imm.toNat / 2 ^ 16 := by
    have hlt := imm.isLt
    rw [BitVec.extractLsb'_toNat, Nat.shiftRight_eq_div_pow]
    omega
  have hlt := imm.isLt
  have hrs := rs.isLt
  have hrt := rt.isLt
  rw [fields_iff _ _ _ _ _ _ hword, ← BitVec.toNat_inj, BitVec.toNat_add, hhigh,
    toNat_append_eq, toNat_append_eq, toNat_append_eq, toNat_append_eq]
  rw [BitVec.toInt_eq_toNat_cond] at himm ⊢
  by_cases hbvar : t = .bvar
  · subst hbvar
    have hone : rt = 1 ↔ rt.toNat = 1 := BitVec.toNat_inj.symm
    have hzero : rt = 0 ↔ rt.toNat = 0 := BitVec.toNat_inj.symm
    have hop : IType.bvar.op.toNat = 1 := rfl
    have hfield : IType.bvar.rtField rt = rt := rfl
    have hcode : (1 : BitVec 5).toNat = 1 := rfl
    rw [if_pos rfl, hone, hzero, hop, hfield, hcode]
    simp only [forall_const, true_and]
    split at himm <;> omega
  · have hop := t.op.isLt
    have hfield := (t.rtField rt).isLt
    rw [if_neg hbvar]
    simp only [hbvar, false_implies, and_true, false_and, or_false]
    split at himm <;> omega

end Calls

/-- In every state that the generator reaches and for every function, registers and
immediate: a call that reports no error places one word, and the word has the fields that
were asked for exactly when the immediate is not negative, and `rt` is 1 where the function
is that for `BVAR`. -/
theorem directed_fields_iff {ok : Gen → Request → Prop} {s s' : Api} (hrun : Run ok s.gen)
    (t : IType) (rt rs : BitVec 5) (imm : BitVec 32)
    (h : t.call s rt rs imm none = .ok s') (herr : s'.errCount = s.errCount) :
    ∃ g w, s.gen.makeRoom = .ok g ∧ Placed g w g.cur s'.gen ∧
      (HasFields w t.op rs (t.rtField rt) imm ↔
        0 ≤ imm.toInt ∧ (t = .bvar → rt = 1) ∨
          t = .bvar ∧ rt = 0 ∧ -0x10000 ≤ imm.toInt ∧ imm.toInt < 0) := by
  obtain ⟨g, hroom, hp⟩ := placed_of_call hrun h herr
  exact ⟨g, _, hroom, hp, word_fields_iff t rt rs (call_ok h herr).1⟩

/-- `gen_i_type_ADDI (R1, R0, 5, 0)` -/
theorem directed_fields_addi : ∃ s' : Api, ∃ g w,
    IType.addi.call { gen := init [] } 1 0 5 none = .ok s' ∧ Placed g w g.cur s'.gen ∧
      HasFields w 0x08 0 1 5 := by
  have hcall : (IType.addi.call { gen := init [] } 1 0 5 none).toOption.any
      (fun s' => s'.errCount == 0) = true := by
    decide +kernel
  obtain ⟨s', hs', herr⟩ := exists_of_any hcall
  have hrun : Run (fun _ _ => True) (init []) := .init []
  have hzero : s'.errCount = 0 := by simpa using herr
  obtain ⟨g, w, -, hp, hiff⟩ :=
    directed_fields_iff (s := { gen := init [] }) hrun .addi 1 0 5 hs' hzero
  exact ⟨s', g, w, hs', hp, hiff.mpr (.inl ⟨by decide, fun h => IType.noConfusion h⟩)⟩

/-- `gen_i_type_ADDI (R1, R0, -4, 0)` makes a word for `R0`. -/
theorem directed_negative :
    ¬ ∀ (s s' : Api) (t : IType) (rt rs : BitVec 5) (imm : BitVec 32),
      Run (fun _ _ => True) s.gen → t.call s rt rs imm none = .ok s' →
        s'.errCount = s.errCount →
        ∃ g w, s.gen.makeRoom = .ok g ∧ Placed g w g.cur s'.gen ∧
          HasFields w t.op rs (t.rtField rt) imm := by
  intro hall
  have hcall : (IType.addi.call { gen := init [] } 1 0 (-4) none).toOption.any
      (fun s' => s'.errCount == 0 && s'.gen.instr 0 == 0x2000FFFC) = true := by
    decide +kernel
  obtain ⟨s', hs', hpost⟩ := exists_of_any hcall
  rw [Bool.and_eq_true, beq_iff_eq, beq_iff_eq] at hpost
  obtain ⟨g, w, hroom, hp, hfields⟩ :=
    hall { gen := init [] } s' .addi 1 0 (-4) (.init []) hs' hpost.1
  have hfirst : (init []).makeRoom = .ok (init []) := rfl
  obtain rfl := Except.ok.inj (hfirst.symm.trans hroom)
  have hat : s'.gen.instr (init []).cur = w := by
    rw [hp.instr, Function.update_self]
  have hword : w = 0x2000FFFC := hat.symm.trans hpost.2
  have hrt := hfields.rt
  rw [hword] at hrt
  exact absurd hrt (by decide)

end SimpleCpu.Mips.HexGen
