import SimpleCpu.RiscV.Alu
import SimpleCpu.RiscV.IssCorrect

/-!
# Arithmetic right shifts

The simulator fills in the sign with an entry of the table `shift_const`, the shifter with
a mask of ones that it shifts itself.

* `signMask_eq`: for one amount the two masks differ in one bit, and the sign is already there.
* `sra_agree`: both give the arithmetic shift, which divides and rounds down.
-/

namespace SimpleCpu.RiscV

open SimpleCpu.Iss SimpleCpu.RiscV.Iss

/-! ## Masks -/

/-- The mask of the shifter has one more one than the entry of the table, at the place the
sign bit has been shifted to. -/
theorem signMask_eq (n : BitVec 5) :
    0xFFFFFFFF#32 <<< (0x1F#5 - n) =
      shiftConst (n.setWidth 32) ||| BitVec.twoPow 32 (31 - n.toNat) := by
  have hn : n.toNat < 32 := n.isLt
  have hconst : shiftConst (n.setWidth 32) = BitVec.allOnes 32 <<< (32 - n.toNat) := by
    rw [← shiftConst_eq hn]
    exact congrArg shiftConst (BitVec.eq_of_toNat_eq (by simp))
  apply BitVec.eq_of_getLsbD_eq
  intro i hi
  rw [getLsbD_signMask n hi, hconst, BitVec.getLsbD_or, BitVec.getLsbD_shiftLeft,
    BitVec.getLsbD_allOnes, BitVec.getLsbD_twoPow, Bool.eq_iff_iff]
  simp only [Bool.or_eq_true, Bool.and_eq_true, Bool.not_eq_true', decide_eq_true_eq,
    decide_eq_false_iff_not]
  omega

/-! ## Results -/

/-- `SRA` in `execute_r`.  The switch looks at bit 5 of `funct7` only. -/
theorem executeR_sra (s : Sim) (rs1 rs2 : BitVec 5) {rd : BitVec 5} (hrd : rd ≠ 0)
    {funct7 funct3 : BitVec 32}
    (hfunct : ((funct7 >>> 5 &&& 0x1) <<< 3) ||| funct3 = Iss.SRA) :
    (executeR s (rs1.setWidth 32) (rs2.setWidth 32) (rd.setWidth 32) funct7
        funct3).next.regs rd =
      (s.current.regs rs1).sshiftRight ((s.current.regs rs2).toNat % 32) := by
  have hdest : rd.setWidth 32 ≠ (0 : BitVec 32) := fun h => hrd ((field_eq_zero rd).mp h)
  unfold executeR
  simp only [hfunct, reg_field, setReg_field, Sim.assign, CpuState.setPc, sra_eq]
  rw [if_neg hdest, if_neg (by decide), if_neg (by decide), if_pos trivial]
  exact Function.update_self ..

/-- For every operand, and every amount in the low five bits of a second one, simulator,
shifter and ALU compute the quotient by the power of two. -/
theorem sra_agree (s : Sim) (rs1 rs2 rd : BitVec 5) (hrd : rd ≠ 0)
    (funct7 funct3 : BitVec 32)
    (hfunct : ((funct7 >>> 5 &&& 0x1) <<< 3) ||| funct3 = Iss.SRA) (a b : BitVec 32)
    (ha : s.current.regs rs1 = a) (hb : s.current.regs rs2 = b) :
    (executeR s (rs1.setWidth 32) (rs2.setWidth 32) (rd.setWidth 32) funct7
        funct3).next.regs rd = shifter a (b.extractLsb' 0 5) 0b11 ∧
      (alu a b ASR_OP).res = shifter a (b.extractLsb' 0 5) 0b11 ∧
      shifter a (b.extractLsb' 0 5) 0b11 = a.sshiftRight (b.toNat % 32) ∧
      (shifter a (b.extractLsb' 0 5) 0b11).toInt = a.toInt / 2 ^ (b.toNat % 32) := by
  subst ha hb
  have hamount : ((s.current.regs rs2).extractLsb' 0 5).toNat =
      (s.current.regs rs2).toNat % 32 := by
    simp
  have hshifter := shifter_arith (s.current.regs rs1) ((s.current.regs rs2).extractLsb' 0 5)
  rw [hamount] at hshifter
  refine ⟨?_, ?_, hshifter, ?_⟩
  · rw [hshifter]
    exact executeR_sra s rs1 rs2 hrd hfunct
  · rw [hshifter]
    exact alu_asr _ _
  · rw [hshifter, BitVec.toInt_sshiftRight, Int.shiftRight_eq_div_pow]
    rfl

/-- `initMemory` with two values in `x1` and `x2`. -/
def withOperands (a b : BitVec 32) : Sim :=
  let cpu := ((initMemory false).current.setReg 1 a).setReg 2 b
  { initMemory false with current := cpu, next := cpu }

/-- `SRA x3, x1, x2` with the least value and an amount of 31 below other bits. -/
theorem sra_agree_min :
    (executeR (withOperands 0x80000000 0xFFFFFFFF) 1 2 3 0x20 5).next.regs 3 =
      0xFFFFFFFF := by
  have h := (sra_agree (withOperands 0x80000000 0xFFFFFFFF) 1 2 3 (by decide) 0x20 5
    (by decide) 0x80000000 0xFFFFFFFF rfl rfl).1
  exact h.trans (by decide)

end SimpleCpu.RiscV
