import SimpleCpu.Bits.Fields
import SimpleCpu.RiscV.IssCorrect

/-!
# The encoders of the RISC-V program generator

The `gen_` functions of `hex_gen.c` put a word together as a sum of shifted fields, with
the bits of an offset in the order of its format.  Each sum is the concatenation of its
fields (`rWord_eq` and so on), and the simulator takes it apart into the same fields
(`round_trip`).

An `int` is the word of its bits, and `>>` of an `int` copies the sign.
-/

namespace SimpleCpu.RiscV.HexGen

open SimpleCpu.Bits SimpleCpu.Iss SimpleCpu.RiscV.Iss SimpleCpu.RiscV.Isa

/-! ## Encoders -/

/-- `hex_instr` of `gen_r_instr`. -/
def rWord (funct7 rs2 rs1 funct3 rd : BitVec 32) : BitVec 32 :=
  let opcode : BitVec 32 := 0x33
  (funct7 <<< 25) + (rs2 <<< 20) + (rs1 <<< 15) + (funct3 <<< 12) + (rd <<< 7) + opcode

/-- `hex_instr` of `gen_i_instr`. -/
def iWord (opcode imm rs1 funct3 rd : BitVec 32) : BitVec 32 :=
  (imm <<< 20) + (rs1 <<< 15) + (funct3 <<< 12) + (rd <<< 7) + opcode

/-- `hex_instr` of `gen_s_instr`. -/
def sWord (opcode imm rs2 rs1 funct3 : BitVec 32) : BitVec 32 :=
  ((imm.sshiftRight 5) <<< 25) + (rs2 <<< 20) + (rs1 <<< 15) + (funct3 <<< 12) +
    ((imm &&& 0x1F) <<< 7) + opcode

/-- `hex_instr` of `gen_b_instr`. -/
def bWord (opcode imm rs2 rs1 funct3 : BitVec 32) : BitVec 32 :=
  ((imm.sshiftRight 12) <<< 31) + ((imm.sshiftRight 5 &&& 0x3F) <<< 25) + (rs2 <<< 20) +
    (rs1 <<< 15) + (funct3 <<< 12) + ((imm.sshiftRight 1 &&& 0xF) <<< 8) +
    ((imm.sshiftRight 11 &&& 0x1) <<< 7) + opcode

/-- `hex_instr` of `gen_u_instr`. -/
def uWord (opcode imm rd : BitVec 32) : BitVec 32 := (imm <<< 12) + (rd <<< 7) + opcode

/-- `hex_instr` of `gen_j_instr`. -/
def jWord (opcode imm rd : BitVec 32) : BitVec 32 :=
  ((imm.sshiftRight 20 &&& 0x1) <<< 31) + ((imm.sshiftRight 1 &&& 0x3FF) <<< 21) +
    ((imm.sshiftRight 11 &&& 0x1) <<< 20) + ((imm.sshiftRight 12 &&& 0xFF) <<< 12) +
    (rd <<< 7) + opcode

/-- `gen_j`, with `CURRENT_STATE.PC` and what `rand()` returns.  The difference is
unsigned, so the first shift does not copy its sign. -/
def genJ (pc address : BitVec 32) (n : Nat) : BitVec 32 :=
  let target := (address - pc) >>> 1
  ((target.sshiftRight 19 &&& 0x1) <<< 31) + ((target.sshiftRight 0 &&& 0x3FF) <<< 21) +
    ((target.sshiftRight 10 &&& 0x1) <<< 20) + ((target.sshiftRight 11 &&& 0xFF) <<< 12) +
    (BitVec.ofNat 32 (n % 32) <<< 7) + 0x6F

/-! ## Words as concatenations -/

section Words

variable (opcode : BitVec 7) (rs2 rs1 rd : BitVec 5) (funct3 : BitVec 3)

theorem rWord_eq (funct7 : BitVec 7) :
    rWord (funct7.setWidth 32) (rs2.setWidth 32) (rs1.setWidth 32) (funct3.setWidth 32)
      (rd.setWidth 32) = funct7 ++ rs2 ++ rs1 ++ funct3 ++ rd ++ 0x33#7 := by
  have hopcode : (0x33 : BitVec 32) = (0x33#7).setWidth 32 := rfl
  unfold rWord
  rw [hopcode]
  dsimp only
  rw [shl_add_shl _ rs2 20, shl_add_shl _ rs1 15, shl_add_shl _ funct3 12,
    shl_add_shl _ rd 7, shl_add_setWidth]
  exact BitVec.setWidth_eq _

theorem iWord_eq (imm : BitVec 32) :
    iWord (opcode.setWidth 32) imm (rs1.setWidth 32) (funct3.setWidth 32)
      (rd.setWidth 32) = imm.setWidth 12 ++ rs1 ++ funct3 ++ rd ++ opcode := by
  unfold iWord
  rw [shl_low imm (n := 12) rfl, shl_add_shl _ rs1 15, shl_add_shl _ funct3 12,
    shl_add_shl _ rd 7, shl_add_setWidth]
  exact BitVec.setWidth_eq _

theorem sWord_eq (imm : BitVec 32) :
    sWord (opcode.setWidth 32) imm (rs2.setWidth 32) (rs1.setWidth 32)
      (funct3.setWidth 32) =
      imm.extractLsb' 5 7 ++ rs2 ++ rs1 ++ funct3 ++ imm.extractLsb' 0 5 ++ opcode := by
  have hlow : imm &&& 0x1F = (imm.extractLsb' 0 5).setWidth 32 := and_mask imm 5
  unfold sWord
  rw [sshr_shl imm (n := 7) rfl (by decide), hlow, shl_add_shl _ rs2 20,
    shl_add_shl _ rs1 15, shl_add_shl _ funct3 12, shl_add_shl _ (imm.extractLsb' 0 5) 7,
    shl_add_setWidth]
  exact BitVec.setWidth_eq _

theorem bWord_eq (imm : BitVec 32) :
    bWord (opcode.setWidth 32) imm (rs2.setWidth 32) (rs1.setWidth 32)
      (funct3.setWidth 32) =
      imm.extractLsb' 12 1 ++ imm.extractLsb' 5 6 ++ rs2 ++ rs1 ++ funct3 ++
        imm.extractLsb' 1 4 ++ imm.extractLsb' 11 1 ++ opcode := by
  have h10 : imm.sshiftRight 5 &&& 0x3F = (imm.extractLsb' 5 6).setWidth 32 :=
    sshr_and_mask imm (n := 6) (by decide)
  have h4 : imm.sshiftRight 1 &&& 0xF = (imm.extractLsb' 1 4).setWidth 32 :=
    sshr_and_mask imm (n := 4) (by decide)
  have h11 : imm.sshiftRight 11 &&& 0x1 = (imm.extractLsb' 11 1).setWidth 32 :=
    sshr_and_mask imm (n := 1) (by decide)
  unfold bWord
  rw [sshr_shl imm (n := 1) rfl (by decide), h10, h4, h11,
    shl_add_shl _ (imm.extractLsb' 5 6) 25, shl_add_shl _ rs2 20, shl_add_shl _ rs1 15,
    shl_add_shl _ funct3 12, shl_add_shl _ (imm.extractLsb' 1 4) 8,
    shl_add_shl _ (imm.extractLsb' 11 1) 7, shl_add_setWidth]
  exact BitVec.setWidth_eq _

theorem uWord_eq (imm : BitVec 32) :
    uWord (opcode.setWidth 32) imm (rd.setWidth 32) = imm.setWidth 20 ++ rd ++ opcode := by
  unfold uWord
  rw [shl_low imm (n := 20) rfl, shl_add_shl _ rd 7, shl_add_setWidth]
  exact BitVec.setWidth_eq _

theorem jWord_eq (imm : BitVec 32) :
    jWord (opcode.setWidth 32) imm (rd.setWidth 32) =
      imm.extractLsb' 20 1 ++ imm.extractLsb' 1 10 ++ imm.extractLsb' 11 1 ++
        imm.extractLsb' 12 8 ++ rd ++ opcode := by
  have h20 : imm.sshiftRight 20 &&& 0x1 = (imm.extractLsb' 20 1).setWidth 32 :=
    sshr_and_mask imm (n := 1) (by decide)
  have h10 : imm.sshiftRight 1 &&& 0x3FF = (imm.extractLsb' 1 10).setWidth 32 :=
    sshr_and_mask imm (n := 10) (by decide)
  have h11 : imm.sshiftRight 11 &&& 0x1 = (imm.extractLsb' 11 1).setWidth 32 :=
    sshr_and_mask imm (n := 1) (by decide)
  have h19 : imm.sshiftRight 12 &&& 0xFF = (imm.extractLsb' 12 8).setWidth 32 :=
    sshr_and_mask imm (n := 8) (by decide)
  unfold jWord
  rw [h20, h10, h11, h19, shl_add_shl _ (imm.extractLsb' 1 10) 21,
    shl_add_shl _ (imm.extractLsb' 11 1) 20, shl_add_shl _ (imm.extractLsb' 12 8) 12,
    shl_add_shl _ rd 7, shl_add_setWidth]
  exact BitVec.setWidth_eq _

/-- `gen_j` encodes the distance as `gen_j_instr` encodes an offset. -/
theorem genJ_eq (pc address : BitVec 32) (n : Nat) :
    genJ pc address n = jWord 0x6F (address - pc) (BitVec.ofNat 32 (n % 32)) := by
  have hfield : ∀ (offset : BitVec 32) (k m : Nat), k + m ≤ 30 →
      (offset >>> 1).sshiftRight k &&& BitVec.ofNat 32 (2 ^ m - 1) =
        offset.sshiftRight (k + 1) &&& BitVec.ofNat 32 (2 ^ m - 1) := by
    intro offset k m h
    rw [sshr_and_mask _ (by omega), sshr_and_mask _ (by omega)]
    apply BitVec.eq_of_getLsbD_eq
    intro i hi
    simp only [BitVec.getLsbD_setWidth, BitVec.getLsbD_extractLsb',
      BitVec.getLsbD_ushiftRight]
    rw [show 1 + (k + i) = k + 1 + i by omega]
  have h20 : ∀ offset : BitVec 32, (offset >>> 1).sshiftRight 19 &&& 0x1 =
      offset.sshiftRight 20 &&& 0x1 := fun offset => hfield offset 19 1 (by decide)
  have h10 : ∀ offset : BitVec 32, (offset >>> 1).sshiftRight 0 &&& 0x3FF =
      offset.sshiftRight 1 &&& 0x3FF := fun offset => hfield offset 0 10 (by decide)
  have h11 : ∀ offset : BitVec 32, (offset >>> 1).sshiftRight 10 &&& 0x1 =
      offset.sshiftRight 11 &&& 0x1 := fun offset => hfield offset 10 1 (by decide)
  have h19 : ∀ offset : BitVec 32, (offset >>> 1).sshiftRight 11 &&& 0xFF =
      offset.sshiftRight 12 &&& 0xFF := fun offset => hfield offset 11 8 (by decide)
  unfold genJ jWord
  dsimp only
  rw [h20, h10, h11, h19]

end Words

/-! ## Taking the words apart -/

section Decode

variable (s : Sim) (op : BitVec 7) (r2 r1 d : BitVec 5) (f3 : BitVec 3)

/-- The low seven bits decide the format. -/
theorem decodeInstrType_append {w : BitVec 32} (x : BitVec 25) (hw : w = x ++ op) :
    decodeInstrType w = decodeInstrType (op.setWidth 32) := by
  refine decodeInstrType_eq ?_
  rw [hw]
  exact BitVec.extractLsb'_append_eq_right

/-- An even offset without its lowest bit. -/
theorem extractLsb'_append_zero {n : Nat} {imm : BitVec 32} (heven : imm &&& 1 = 0) :
    imm.extractLsb' 1 n ++ 0#1 = imm.setWidth (n + 1) := by
  have h0 : imm.getLsbD 0 = false := by
    have h := congrArg (fun x => x.getLsbD 0) heven
    simpa using h
  apply BitVec.eq_of_getLsbD_eq
  intro i hi
  rw [BitVec.getLsbD_append, BitVec.getLsbD_setWidth]
  cases i with
  | zero => simpa using h0
  | succ i => simp [show i < n by omega, Nat.add_comm]

theorem decodeR_append (f7 : BitVec 7) :
    decodeR s (f7 ++ r2 ++ r1 ++ f3 ++ d ++ 0x33#7) =
      executeR s (r1.setWidth 32) (r2.setWidth 32) (d.setWidth 32) (f7.setWidth 32)
        (f3.setWidth 32) := by
  unfold decodeR
  rw [field_rs1, field_rs2, field_rd, field_funct3, field_funct7]
  simp (disch := omega) only [rs1, rs2, rd, funct3,
    BitVec.extractLsb'_append_eq_of_add_le, BitVec.extractLsb'_append_eq_of_le,
    Nat.reduceSub, BitVec.extractLsb'_eq_self]

/-- The fields `decode_i` takes out. -/
theorem fieldsI_append {w : BitVec 32} {imm : BitVec 12} (hw : w = imm ++ r1 ++ f3 ++ d ++ op) :
    w >>> 12 &&& 0x07 = f3.setWidth 32 ∧ w &&& 0x7F = op.setWidth 32 ∧
      w >>> 15 &&& 0x1F = r1.setWidth 32 ∧ w >>> 7 &&& 0x1F = d.setWidth 32 ∧
      w >>> 20 &&& 0xFFF = imm.setWidth 32 := by
  rw [field_rs1, field_rd, field_funct3, field_immI, field_opcode, hw]
  simp (disch := omega) only [opcode, rs1, rd, funct3, immI,
    BitVec.extractLsb'_append_eq_of_add_le, BitVec.extractLsb'_append_eq_of_le,
    Nat.reduceSub, BitVec.extractLsb'_eq_self, and_self]

theorem decodeI_append {w : BitVec 32} {imm : BitVec 12}
    (hw : w = imm ++ r1 ++ f3 ++ d ++ op) :
    decodeI s w =
      executeI s (f3.setWidth 32) (op.setWidth 32) (r1.setWidth 32) (d.setWidth 32)
        (imm.setWidth 32) := by
  obtain ⟨hf3, hop, hr1, hd, himm⟩ := fieldsI_append op r1 d f3 hw
  unfold decodeI
  rw [hf3, hop, hr1, hd, himm]

/-- The fields `decode_s` takes out. -/
theorem fieldsS_append {w imm : BitVec 32}
    (hw : w = imm.extractLsb' 5 7 ++ r2 ++ r1 ++ f3 ++ imm.extractLsb' 0 5 ++ op) :
    w >>> 12 &&& 0x07 = f3.setWidth 32 ∧ w >>> 15 &&& 0x1F = r1.setWidth 32 ∧
      w >>> 20 &&& 0x1F = r2.setWidth 32 ∧
      ((w >>> 25 &&& 0x7F) <<< 5) ||| (w >>> 7 &&& 0x1F) =
        (imm.setWidth 12).setWidth 32 := by
  have himm : imm.extractLsb' 5 7 ++ imm.extractLsb' 0 5 = imm.setWidth 12 :=
    BitVec.extractLsb'_append_extractLsb'_eq_extractLsb' rfl
  rw [field_rs1, field_rs2, field_funct3, field_immS, hw]
  simp (disch := omega) only [rs1, rs2, funct3,
    BitVec.extractLsb'_append_eq_of_add_le, BitVec.extractLsb'_append_eq_of_le,
    Nat.reduceSub, BitVec.extractLsb'_eq_self, himm, and_self]

theorem decodeS_append {w imm : BitVec 32}
    (hw : w = imm.extractLsb' 5 7 ++ r2 ++ r1 ++ f3 ++ imm.extractLsb' 0 5 ++ op) :
    decodeS s w =
      executeS s (f3.setWidth 32) (r1.setWidth 32) (r2.setWidth 32)
        ((imm.setWidth 12).setWidth 32) := by
  obtain ⟨hf3, hr1, hr2, himm⟩ := fieldsS_append op r2 r1 f3 hw
  unfold decodeS
  rw [hf3, hr1, hr2, himm]

theorem decodeB_append {imm : BitVec 32} (heven : imm &&& 1 = 0) :
    decodeB s (imm.extractLsb' 12 1 ++ imm.extractLsb' 5 6 ++ r2 ++ r1 ++ f3 ++
        imm.extractLsb' 1 4 ++ imm.extractLsb' 11 1 ++ op) =
      executeB s (f3.setWidth 32) (r1.setWidth 32) (r2.setWidth 32)
        ((imm.setWidth 13).setWidth 32) := by
  have h11 : imm.extractLsb' 12 1 ++ imm.extractLsb' 11 1 = imm.extractLsb' 11 2 :=
    BitVec.extractLsb'_append_extractLsb'_eq_extractLsb' rfl
  have h5 : imm.extractLsb' 11 2 ++ imm.extractLsb' 5 6 = imm.extractLsb' 5 8 :=
    BitVec.extractLsb'_append_extractLsb'_eq_extractLsb' rfl
  have h1 : imm.extractLsb' 5 8 ++ imm.extractLsb' 1 4 = imm.extractLsb' 1 12 :=
    BitVec.extractLsb'_append_extractLsb'_eq_extractLsb' rfl
  unfold decodeB
  rw [field_rs1, field_rs2, field_funct3, field_immB]
  simp (disch := omega) only [rs1, rs2, funct3, immB,
    BitVec.extractLsb'_append_eq_of_add_le, BitVec.extractLsb'_append_eq_of_le,
    Nat.reduceSub, BitVec.extractLsb'_eq_self]
  rw [h11, h5, h1, extractLsb'_append_zero heven]

theorem decodeU_append (imm : BitVec 20) :
    decodeU s (imm ++ d ++ op) =
      executeU s (op.setWidth 32) (d.setWidth 32) (imm.setWidth 32) := by
  unfold decodeU
  rw [field_rd, field_immU, field_opcode]
  simp (disch := omega) only [opcode, rd, immU, BitVec.extractLsb'_append_eq_of_add_le,
    BitVec.extractLsb'_append_eq_of_le, Nat.reduceSub, BitVec.extractLsb'_eq_self]

theorem decodeJ_append {imm : BitVec 32} (heven : imm &&& 1 = 0) :
    decodeJ s (imm.extractLsb' 20 1 ++ imm.extractLsb' 1 10 ++ imm.extractLsb' 11 1 ++
        imm.extractLsb' 12 8 ++ d ++ op) =
      executeJ s (d.setWidth 32) ((imm.setWidth 21).setWidth 32) := by
  have h12 : imm.extractLsb' 20 1 ++ imm.extractLsb' 12 8 = imm.extractLsb' 12 9 :=
    BitVec.extractLsb'_append_extractLsb'_eq_extractLsb' rfl
  have h11 : imm.extractLsb' 12 9 ++ imm.extractLsb' 11 1 = imm.extractLsb' 11 10 :=
    BitVec.extractLsb'_append_extractLsb'_eq_extractLsb' rfl
  have h1 : imm.extractLsb' 11 10 ++ imm.extractLsb' 1 10 = imm.extractLsb' 1 20 :=
    BitVec.extractLsb'_append_extractLsb'_eq_extractLsb' rfl
  unfold decodeJ
  rw [field_rd, field_immJ]
  simp (disch := omega) only [rd, immJ, BitVec.extractLsb'_append_eq_of_add_le,
    BitVec.extractLsb'_append_eq_of_le, Nat.reduceSub, BitVec.extractLsb'_eq_self]
  rw [h12, h11, h1, extractLsb'_append_zero heven]

end Decode

/-! ## Round trips -/

/-- The word is the concatenation of `fields`, it has the format `t`, and the `decode`
function of the format makes the call `execute`. -/
structure DecodesAs (w : BitVec 32) (t : InstrType) (fields : BitVec 32)
    (execute : Sim → Sim) : Prop where
  noCarry : w = fields
  format : decodeInstrType w = some t
  call : ∀ s, dispatch t s w = execute s

section RoundTrip

variable (rs2 rs1 rd : BitVec 5) (funct3 : BitVec 3)

theorem rWord_decodesAs (funct7 : BitVec 7) :
    DecodesAs
      (rWord (funct7.setWidth 32) (rs2.setWidth 32) (rs1.setWidth 32) (funct3.setWidth 32)
        (rd.setWidth 32))
      .r (funct7 ++ rs2 ++ rs1 ++ funct3 ++ rd ++ 0x33#7)
      fun s => executeR s (rs1.setWidth 32) (rs2.setWidth 32) (rd.setWidth 32)
        (funct7.setWidth 32) (funct3.setWidth 32) := by
  have hw := rWord_eq rs2 rs1 rd funct3 funct7
  refine ⟨hw, (decodeInstrType_append _ _ hw).trans rfl, fun s => ?_⟩
  exact (congrArg (decodeR s) hw).trans (decodeR_append s rs2 rs1 rd funct3 funct7)

theorem iWord_decodesAs {op : BitVec 7} (hop : op = 0x13 ∨ op = 0x03) (imm : BitVec 32) :
    DecodesAs
      (iWord (op.setWidth 32) imm (rs1.setWidth 32) (funct3.setWidth 32) (rd.setWidth 32))
      .i (imm.setWidth 12 ++ rs1 ++ funct3 ++ rd ++ op)
      fun s => executeI s (funct3.setWidth 32) (op.setWidth 32) (rs1.setWidth 32)
        (rd.setWidth 32) ((imm.setWidth 12).setWidth 32) := by
  have hw := iWord_eq op rs1 rd funct3 imm
  refine ⟨hw, (decodeInstrType_append _ _ hw).trans ?_, fun s => ?_⟩
  · rcases hop with rfl | rfl <;> rfl
  · exact decodeI_append s op rs1 rd funct3 hw

theorem sWord_decodesAs (imm : BitVec 32) :
    DecodesAs
      (sWord 0x23 imm (rs2.setWidth 32) (rs1.setWidth 32) (funct3.setWidth 32))
      .s (imm.extractLsb' 5 7 ++ rs2 ++ rs1 ++ funct3 ++ imm.extractLsb' 0 5 ++ 0x23#7)
      fun s => executeS s (funct3.setWidth 32) (rs1.setWidth 32) (rs2.setWidth 32)
        ((imm.setWidth 12).setWidth 32) := by
  have hw := sWord_eq 0x23 rs2 rs1 funct3 imm
  refine ⟨hw, (decodeInstrType_append _ _ hw).trans rfl, fun s => ?_⟩
  exact decodeS_append s _ rs2 rs1 funct3 hw

theorem bWord_decodesAs {imm : BitVec 32} (heven : imm &&& 1 = 0) :
    DecodesAs
      (bWord 0x63 imm (rs2.setWidth 32) (rs1.setWidth 32) (funct3.setWidth 32))
      .b (imm.extractLsb' 12 1 ++ imm.extractLsb' 5 6 ++ rs2 ++ rs1 ++ funct3 ++
        imm.extractLsb' 1 4 ++ imm.extractLsb' 11 1 ++ 0x63#7)
      fun s => executeB s (funct3.setWidth 32) (rs1.setWidth 32) (rs2.setWidth 32)
        ((imm.setWidth 13).setWidth 32) := by
  have hw := bWord_eq 0x63 rs2 rs1 funct3 imm
  refine ⟨hw, (decodeInstrType_append _ _ hw).trans rfl, fun s => ?_⟩
  exact (congrArg (decodeB s) hw).trans (decodeB_append s _ rs2 rs1 funct3 heven)

theorem uWord_decodesAs {op : BitVec 7}
    (hop : op.setWidth 32 = Iss.LUI ∨ op.setWidth 32 = Iss.AUIPC) (imm : BitVec 32) :
    DecodesAs (uWord (op.setWidth 32) imm (rd.setWidth 32)) .u (imm.setWidth 20 ++ rd ++ op)
      fun s => executeU s (op.setWidth 32) (rd.setWidth 32)
        ((imm.setWidth 20).setWidth 32) := by
  have hw := uWord_eq op rd imm
  refine ⟨hw, (decodeInstrType_append _ _ hw).trans ?_, fun s => ?_⟩
  · rcases hop with h | h <;> rw [h] <;> rfl
  · exact (congrArg (decodeU s) hw).trans (decodeU_append s op rd _)

theorem jWord_decodesAs {imm : BitVec 32} (heven : imm &&& 1 = 0) :
    DecodesAs (jWord 0x6F imm (rd.setWidth 32)) .j
      (imm.extractLsb' 20 1 ++ imm.extractLsb' 1 10 ++ imm.extractLsb' 11 1 ++
        imm.extractLsb' 12 8 ++ rd ++ 0x6F#7)
      fun s => executeJ s (rd.setWidth 32) ((imm.setWidth 21).setWidth 32) := by
  have hw := jWord_eq 0x6F rd imm
  refine ⟨hw, (decodeInstrType_append _ _ hw).trans rfl, fun s => ?_⟩
  exact (congrArg (decodeJ s) hw).trans (decodeJ_append s _ rd heven)

/-- The word of `gen_j` is that of `gen_j_instr` for the distance. -/
theorem genJ_decodesAs {pc address : BitVec 32} (heven : (address - pc) &&& 1 = 0) (n : Nat) :
    DecodesAs (genJ pc address n) .j
      ((address - pc).extractLsb' 20 1 ++ (address - pc).extractLsb' 1 10 ++
        (address - pc).extractLsb' 11 1 ++ (address - pc).extractLsb' 12 8 ++
        BitVec.ofNat 5 n ++ 0x6F#7)
      fun s => executeJ s (BitVec.ofNat 32 (n % 32))
        (((address - pc).setWidth 21).setWidth 32) := by
  have hrd : (BitVec.ofNat 5 n).setWidth 32 = BitVec.ofNat 32 (n % 32) := by
    apply BitVec.eq_of_toNat_eq
    rw [BitVec.toNat_setWidth, BitVec.toNat_ofNat, BitVec.toNat_ofNat]
  rw [genJ_eq, ← hrd]
  exact jWord_decodesAs (BitVec.ofNat 5 n) heven

/-- In the range of the format, the decoded distance leads to the address. -/
theorem genJ_target {pc address : BitVec 32}
    (hrange : ((address - pc).setWidth 21).signExtend 32 = address - pc) :
    pc + extend 20 11 (((address - pc).setWidth 21).setWidth 32) = address := by
  rw [extend_immJ, hrange]
  bv_omega

/-- Every word of a `gen_` function is decoded to the fields it was made from. -/
theorem round_trip (funct7 : BitVec 7) {opI opU : BitVec 7}
    (hI : opI = 0x13 ∨ opI = 0x03) (hU : opU.setWidth 32 = Iss.LUI ∨ opU.setWidth 32 = Iss.AUIPC)
    (imm : BitVec 32) {offset pc address : BitVec 32} (heven : offset &&& 1 = 0)
    (hdist : (address - pc) &&& 1 = 0) (n : Nat) :
    DecodesAs
      (rWord (funct7.setWidth 32) (rs2.setWidth 32) (rs1.setWidth 32) (funct3.setWidth 32)
        (rd.setWidth 32))
      .r (funct7 ++ rs2 ++ rs1 ++ funct3 ++ rd ++ 0x33#7)
      (fun s => executeR s (rs1.setWidth 32) (rs2.setWidth 32) (rd.setWidth 32)
        (funct7.setWidth 32) (funct3.setWidth 32)) ∧
    DecodesAs
      (iWord (opI.setWidth 32) imm (rs1.setWidth 32) (funct3.setWidth 32) (rd.setWidth 32))
      .i (imm.setWidth 12 ++ rs1 ++ funct3 ++ rd ++ opI)
      (fun s => executeI s (funct3.setWidth 32) (opI.setWidth 32) (rs1.setWidth 32)
        (rd.setWidth 32) ((imm.setWidth 12).setWidth 32)) ∧
    DecodesAs
      (sWord 0x23 imm (rs2.setWidth 32) (rs1.setWidth 32) (funct3.setWidth 32))
      .s (imm.extractLsb' 5 7 ++ rs2 ++ rs1 ++ funct3 ++ imm.extractLsb' 0 5 ++ 0x23#7)
      (fun s => executeS s (funct3.setWidth 32) (rs1.setWidth 32) (rs2.setWidth 32)
        ((imm.setWidth 12).setWidth 32)) ∧
    DecodesAs
      (bWord 0x63 offset (rs2.setWidth 32) (rs1.setWidth 32) (funct3.setWidth 32))
      .b (offset.extractLsb' 12 1 ++ offset.extractLsb' 5 6 ++ rs2 ++ rs1 ++ funct3 ++
        offset.extractLsb' 1 4 ++ offset.extractLsb' 11 1 ++ 0x63#7)
      (fun s => executeB s (funct3.setWidth 32) (rs1.setWidth 32) (rs2.setWidth 32)
        ((offset.setWidth 13).setWidth 32)) ∧
    DecodesAs (uWord (opU.setWidth 32) imm (rd.setWidth 32)) .u
      (imm.setWidth 20 ++ rd ++ opU)
      (fun s => executeU s (opU.setWidth 32) (rd.setWidth 32)
        ((imm.setWidth 20).setWidth 32)) ∧
    DecodesAs (jWord 0x6F offset (rd.setWidth 32)) .j
      (offset.extractLsb' 20 1 ++ offset.extractLsb' 1 10 ++ offset.extractLsb' 11 1 ++
        offset.extractLsb' 12 8 ++ rd ++ 0x6F#7)
      (fun s => executeJ s (rd.setWidth 32) ((offset.setWidth 21).setWidth 32)) ∧
    DecodesAs (genJ pc address n) .j
      ((address - pc).extractLsb' 20 1 ++ (address - pc).extractLsb' 1 10 ++
        (address - pc).extractLsb' 11 1 ++ (address - pc).extractLsb' 12 8 ++
        BitVec.ofNat 5 n ++ 0x6F#7)
      (fun s => executeJ s (BitVec.ofNat 32 (n % 32))
        (((address - pc).setWidth 21).setWidth 32)) ∧
    (((address - pc).setWidth 21).signExtend 32 = address - pc →
      pc + extend 20 11 (((address - pc).setWidth 21).setWidth 32) = address) :=
  ⟨rWord_decodesAs rs2 rs1 rd funct3 funct7, iWord_decodesAs rs1 rd funct3 hI imm,
    sWord_decodesAs rs2 rs1 funct3 imm, bWord_decodesAs rs2 rs1 funct3 heven,
    uWord_decodesAs rd hU imm, jWord_decodesAs rd heven, genJ_decodesAs hdist n,
    genJ_target⟩

/-- The jump `gen_j` makes from 0x2010 back to 0x2008. -/
theorem round_trip_back :
    DecodesAs (genJ 0x2010 0x2008 3) .j 0xff9ff1ef fun s => executeJ s 3 0x1ffff8 :=
  have hI : 0x13#7 = 0x13 ∨ 0x13#7 = 0x03 := Or.inl rfl
  have hU : (0x37#7).setWidth 32 = Iss.LUI ∨ (0x37#7).setWidth 32 = Iss.AUIPC := Or.inl rfl
  have heven : 0x8#32 &&& 1 = 0 := rfl
  have hdist : (0x2008#32 - 0x2010) &&& 1 = 0 := by decide
  (round_trip 1 2 3 0 0 hI hU 4 heven hdist 3).2.2.2.2.2.2.1

end RoundTrip

end SimpleCpu.RiscV.HexGen
