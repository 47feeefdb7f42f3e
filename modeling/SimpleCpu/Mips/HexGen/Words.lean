import SimpleCpu.Mips.HexGen.Generator
import SimpleCpu.Mips.IssAlign

/-!
# The words the MIPS program generator makes

Every word that is drawn, and every jump of `make_room`, is the concatenation of its
fields and encodes an instruction of `Isa`.  `jump_next` and `drawn_next` say where the
simulator goes with it.
-/

namespace SimpleCpu.Mips.HexGen

open SimpleCpu.Bits SimpleCpu.HexGen SimpleCpu.Iss SimpleCpu.Mips.Iss SimpleCpu.Mips.Isa

/-! ## Fields -/

section Fields

variable (rs rt rd shamt : BitVec 5)

theorem rWord_eq (f : BitVec 6) :
    (RArgs.mk (f.setWidth 32) rd rs rt shamt).word = 0#6 ++ rs ++ rt ++ rd ++ shamt ++ f := by
  have hop : (0 : BitVec 32) = (0#6).setWidth 32 := rfl
  unfold RArgs.word
  dsimp only
  rw [hop, shl_add_shl _ rs 21, shl_add_shl _ rt 16, shl_add_shl _ rd 11,
    shl_add_shl _ shamt 6, shl_add_setWidth]
  exact BitVec.setWidth_eq _

theorem iWord_eq (o : BitVec 6) (imm : BitVec 16) :
    (IArgs.mk (o.setWidth 32) rt rs (imm.setWidth 32)).word = o ++ rs ++ rt ++ imm := by
  unfold IArgs.word
  rw [shl_add_shl _ rs 21, shl_add_shl _ rt 16, shl_add_setWidth]
  exact BitVec.setWidth_eq _

theorem jWord_eq (t : BitVec 26) : jWord J (t.setWidth 32) = 2#6 ++ t := by
  have hop : J = (2#6).setWidth 32 := rfl
  unfold jWord
  rw [hop, shl_add_setWidth]
  exact BitVec.setWidth_eq _

theorem decodeInstr_rWord {f : BitVec 6} {fn : RFun} (hf : rFun f = some fn) :
    decodeInstr (0#6 ++ rs ++ rt ++ rd ++ shamt ++ f) = some (.r fn rd rs rt) := by
  simp (disch := omega) only [decodeInstr, op, Isa.rs, Isa.rt, Isa.rd, funct,
    BitVec.extractLsb'_append_eq_of_add_le, BitVec.extractLsb'_append_eq_of_le,
    Nat.reduceSub, BitVec.extractLsb'_eq_self, hf]
  rfl

theorem fields_iWord {w : BitVec 32} {o : BitVec 6} {imm : BitVec 16}
    (hw : w = o ++ rs ++ rt ++ imm) :
    op w = o ∧ Isa.rs w = rs ∧ Isa.rt w = rt ∧ imm16 w = imm := by
  rw [hw]
  simp (disch := omega) only [op, Isa.rs, Isa.rt, imm16,
    BitVec.extractLsb'_append_eq_of_add_le, BitVec.extractLsb'_append_eq_of_le,
    Nat.reduceSub, BitVec.extractLsb'_eq_self, and_self]

theorem decodeInstr_jWord (t : BitVec 26) : decodeInstr (2#6 ++ t) = some (.j t) := by
  simp (disch := omega) only [decodeInstr, op, target,
    BitVec.extractLsb'_append_eq_of_add_le, BitVec.extractLsb'_append_eq_of_le,
    Nat.reduceSub, BitVec.extractLsb'_eq_self]
  rfl

end Fields

/-! ## Jumps -/

/-- A jump inside the first segment goes to its index. -/
theorem jumpTarget_eq {pc : BitVec 32} (hpc : pc.toNat < 0x2000) (t : BitVec 26) :
    (jumpTarget pc t).toNat = 4 * t.toNat := by
  have hseq : (pc + 4).toNat = pc.toNat + 4 := by
    rw [BitVec.toNat_add]
    show (pc.toNat + 4) % 2 ^ 32 = pc.toNat + 4
    omega
  rw [jumpTarget_toNat, hseq]
  omega

/-- The jump of `make_room`. -/
theorem decodeInstr_genJ {i : BitVec 32} (hi : i.toNat < 0x2000) (h4 : i.toNat % 4 = 0) :
    ∃ t : BitVec 26, decodeInstr (Gen.genJ i) = some (.j t) ∧ 4 * t.toNat = i.toNat := by
  have hfield : (i &&& 0xFFFFFFC) >>> 2 = (i.extractLsb' 2 26).setWidth 32 := by
    apply BitVec.eq_of_getLsbD_eq
    intro k hk
    simp only [BitVec.getLsbD_ushiftRight, BitVec.getLsbD_and, BitVec.getLsbD_setWidth,
      BitVec.getLsbD_extractLsb']
    interval_cases k <;> simp
  have hw : Gen.genJ i = jWord J ((i &&& 0xFFFFFFC) >>> 2) := rfl
  refine ⟨i.extractLsb' 2 26, ?_, ?_⟩
  · rw [hw, hfield, jWord_eq, decodeInstr_jWord]
  · rw [BitVec.extractLsb'_toNat, Nat.shiftRight_eq_div_pow]
    omega

/-! ## The end sequence -/

/-- The word that sets register 2. -/
theorem decodeInstr_addiOpcode : decodeInstr Gen.addiOpcode = some (.i .addi 2 0 0xa) := by
  decide

/-! ## Words that are drawn -/

theorem nextPc_b (f : BrnFun) (rs rt : BitVec 5) (imm : BitVec 16) (pc : BitVec 32)
    (regs : BitVec 5 → BitVec 32) {p : Prop} (hp : p) :
    (Instr.b f rs rt imm).nextPc pc regs = pc + 4 ∨
      (p ∧ (Instr.b f rs rt imm).nextPc pc regs = branchTarget pc imm) := by
  unfold Instr.nextPc
  dsimp only
  split
  next => exact Or.inr ⟨hp, rfl⟩
  next => exact Or.inl rfl

/-- The instruction of an immediate word that is drawn goes on, or it is a branch. -/
theorem decodeInstr_iWord {w : BitVec 32} {o : BitVec 6} {rs rt : BitVec 5} {imm : BitVec 16}
    (hw : w = o ++ rs ++ rt ++ imm) (ho : o.setWidth 32 ∈ opcodeValIType) :
    ∃ x, decodeInstr w = some x ∧ ∀ pc regs, x.nextPc pc regs = pc + 4 ∨
      (isBrnOpcode (o.setWidth 32) = true ∧ x.nextPc pc regs = branchTarget pc imm) := by
  obtain ⟨hop, hrs, hrt, himm⟩ := fields_iWord _ _ hw
  have hcases : o = 0x8 ∨ o = 0xc ∨ o = 0x4 ∨ o = 0x5 ∨ o = 0x23 ∨ o = 0xd ∨ o = 0x2b ∨
      o = 0xa := by
    revert ho
    generalize o = o'
    revert o'
    decide
  unfold decodeInstr
  rw [hop, hrs, hrt, himm]
  rcases hcases with rfl | rfl | rfl | rfl | rfl | rfl | rfl | rfl
  · exact ⟨_, rfl, fun _ _ => Or.inl rfl⟩
  · exact ⟨_, rfl, fun _ _ => Or.inl rfl⟩
  · exact ⟨_, rfl, fun pc regs => nextPc_b .beq rs rt imm pc regs rfl⟩
  · exact ⟨_, rfl, fun pc regs => nextPc_b .bne rs rt imm pc regs rfl⟩
  · exact ⟨_, rfl, fun _ _ => Or.inl rfl⟩
  · exact ⟨_, rfl, fun _ _ => Or.inl rfl⟩
  · exact ⟨_, rfl, fun _ _ => Or.inl rfl⟩
  · exact ⟨_, rfl, fun _ _ => Or.inl rfl⟩

/-- The functions that are drawn. -/
theorem functValRType_rFun {a : RArgs} (h : a.funct ∈ functValRType) :
    ∃ (f : BitVec 6) (fn : RFun), a.funct = f.setWidth 32 ∧ rFun f = some fn := by
  unfold functValRType at h
  simp only [List.mem_cons, List.not_mem_nil, or_false] at h
  rcases h with h | h | h | h | h
  · exact ⟨0x20, _, h, rfl⟩
  · exact ⟨0x24, _, h, rfl⟩
  · exact ⟨0x25, _, h, rfl⟩
  · exact ⟨0x2a, _, h, rfl⟩
  · exact ⟨0x22, _, h, rfl⟩

/-- An opcode and an immediate that are drawn fit their fields. -/
theorem iWord_of_drawn {a : IArgs} (hop : a.opcode ∈ opcodeValIType)
    (himm : a.imm.toNat < 0x10000) :
    a.opcode = (a.opcode.setWidth 6).setWidth 32 ∧ a.imm = (a.imm.setWidth 16).setWidth 32 ∧
      a.word = a.opcode.setWidth 6 ++ a.rs ++ a.rt ++ a.imm.setWidth 16 := by
  have ho : a.opcode = (a.opcode.setWidth 6).setWidth 32 := by
    unfold opcodeValIType at hop
    simp only [List.mem_cons, List.not_mem_nil, or_false] at hop
    rcases hop with h | h | h | h | h | h | h | h <;> rw [h] <;> rfl
  have hi : a.imm = (a.imm.setWidth 16).setWidth 32 := by
    apply BitVec.eq_of_toNat_eq
    rw [BitVec.toNat_setWidth, BitVec.toNat_setWidth]
    omega
  refine ⟨ho, hi, ?_⟩
  have hw := iWord_eq a.rs a.rt (a.opcode.setWidth 6) (a.imm.setWidth 16)
  rw [← ho, ← hi] at hw
  exact hw

/-- A function that is drawn makes a register instruction. -/
theorem decodeInstr_drawnR {a : RArgs} (h : a.funct ∈ functValRType) :
    ∃ fn, decodeInstr a.word = some (.r fn a.rd a.rs a.rt) := by
  obtain ⟨f, fn, hfunct, hf⟩ := functValRType_rFun h
  have hw := rWord_eq a.rs a.rt a.rd a.shamt f
  rw [← hfunct] at hw
  exact ⟨fn, (congrArg decodeInstr hw).trans (decodeInstr_rWord a.rs a.rt a.rd a.shamt hf)⟩

/-- A target that is drawn fits its field. -/
theorem decodeInstr_drawnJ {target : BitVec 32} (h : target.toNat < 0x3FFFFFF) :
    ∃ t : BitVec 26, t.setWidth 32 = target ∧ decodeInstr (jWord J target) = some (.j t) := by
  have ht : (target.setWidth 26).setWidth 32 = target := by
    apply BitVec.eq_of_toNat_eq
    rw [BitVec.toNat_setWidth, BitVec.toNat_setWidth]
    omega
  refine ⟨target.setWidth 26, ht, ?_⟩
  have hw := jWord_eq (target.setWidth 26)
  rw [ht] at hw
  rw [hw, decodeInstr_jWord]

end SimpleCpu.Mips.HexGen
