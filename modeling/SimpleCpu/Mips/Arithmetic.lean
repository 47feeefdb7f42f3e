import SimpleCpu.Bits.Arithmetic
import SimpleCpu.Mips.IssFrame

/-!
# Multiplication, division and arithmetic shifts of the MIPS simulator

The cases of `execute_r` whose C expression is not the operation of the instruction.

* `mult_hiLo_iff`: the product is taken in 32 bits, so `HI` is always zero.
* `division_safe_iff`: no case looks at its divisor before it divides.
* `sra_iff`: the sign is bit 28 of the wrong register, shifted out, so both arithmetic
  shifts are logical.
-/

namespace SimpleCpu.Mips.Iss

open SimpleCpu.Bits SimpleCpu.Iss SimpleCpu.Mips.Isa

/-! ## Products -/

section Products

variable (s : Sim) (rs rt shamt : BitVec 32) {rd : BitVec 32} (hrd : rd ≠ 0)

include hrd

/-- Both multiplications leave the widened low half of the product. -/
theorem executeR_mult {funct : BitVec 32} (hf : funct = MULT ∨ funct = MULTU) :
    (executeR s rs rt rd shamt funct).next.hi ++ (executeR s rs rt rd shamt funct).next.lo =
      (s.current.reg rs * s.current.reg rt).setWidth 64 := by
  have heq : executeR s rs rt rd shamt funct = s.assign fun n =>
      { n with
        hi := ((s.current.reg rs * s.current.reg rt).setWidth 64 >>> 32).setWidth 32
        lo := ((s.current.reg rs * s.current.reg rt).setWidth 64 : BitVec 64).setWidth 32
        pc := s.current.pc + 4 } := by
    rcases hf with rfl | rfl <;> exact (if_neg fun h => hrd h.1).trans rfl
  rw [heq]
  exact halves_setWidth _

/-- A multiplication is right where the product fits into 32 bits and is not negative. -/
theorem mult_hiLo_iff :
    ((executeR s rs rt rd shamt MULT).next.hi ++ (executeR s rs rt rd shamt MULT).next.lo =
        (s.current.reg rs).signExtend 64 * (s.current.reg rt).signExtend 64 ↔
      0 ≤ (s.current.reg rs).toInt * (s.current.reg rt).toInt ∧
        (s.current.reg rs).toInt * (s.current.reg rt).toInt < 2 ^ 32) ∧
    ((executeR s rs rt rd shamt MULTU).next.hi ++ (executeR s rs rt rd shamt MULTU).next.lo =
        (s.current.reg rs).setWidth 64 * (s.current.reg rt).setWidth 64 ↔
      (s.current.reg rs).toNat * (s.current.reg rt).toNat < 2 ^ 32) := by
  constructor
  · rw [executeR_mult s rs rt shamt hrd (.inl rfl)]
    exact setWidth_mul_eq_signed_iff _ _
  · rw [executeR_mult s rs rt shamt hrd (.inr rfl)]
    exact setWidth_mul_eq_unsigned_iff _ _

end Products

/-- `initMemory` with two values in the registers 1 and 2. -/
def withOperands (a b : BitVec 32) : Sim :=
  let cpu := (initMemory.current.setReg 1 a).setReg 2 b
  { initMemory with current := cpu, next := cpu }

/-- `7 * 6`, signed and unsigned. -/
theorem mult_hiLo_42 :
    let s := withOperands 7 6
    let mult := (executeR s 1 2 3 0 MULT).next
    let multu := (executeR s 1 2 3 0 MULTU).next
    mult.hi ++ mult.lo = 42#64 ∧ multu.hi ++ multu.lo = 42#64 := by
  have h := mult_hiLo_iff (withOperands 7 6) 1 2 0 (show (3 : BitVec 32) ≠ 0 by decide)
  exact ⟨h.1.mpr (by decide), h.2.mpr (by decide)⟩

/-- `0x10000 * 0x10000` leaves zero in both registers, and `-1 * 1` leaves zero in `HI`. -/
theorem mult_hiLo_lost :
    ¬ ∀ (s : Sim) (rs rt rd shamt : BitVec 32), rd ≠ 0 →
      (executeR s rs rt rd shamt MULT).next.hi ++ (executeR s rs rt rd shamt MULT).next.lo =
          (s.current.reg rs).signExtend 64 * (s.current.reg rt).signExtend 64 ∧
        (executeR s rs rt rd shamt MULTU).next.hi ++
            (executeR s rs rt rd shamt MULTU).next.lo =
          (s.current.reg rs).setWidth 64 * (s.current.reg rt).setWidth 64 := by
  intro h
  have hlost := h (withOperands 0x10000 0x10000) 1 2 3 0 (by decide)
  exact absurd hlost.1 (by decide)

/-! ## Divisions -/

/-- C leaves the division of the function undefined: the divisor is zero, or the quotient
of a signed division is `2 ^ 31`. -/
def undefinedDivision (a b funct : BitVec 32) : Prop :=
  funct = DIV ∧ (b = 0 ∨ a = 0x80000000 ∧ b = 0xFFFFFFFF) ∨ funct = DIVU ∧ b = 0

instance (a b funct : BitVec 32) : Decidable (undefinedDivision a b funct) :=
  inferInstanceAs (Decidable (_ ∨ _))

/-- The word at the program counter is dispatched to an undefined division. -/
def Sim.crashes (s : Sim) : Prop :=
  let w := s.memRead s.current.pc
  decodeInstrType w = .r ∧ rd w ≠ 0 ∧
    undefinedDivision (s.current.regs (rs w)) (s.current.regs (rt w)) (w &&& 0x3F)

instance (s : Sim) : Decidable s.crashes := inferInstanceAs (Decidable (_ ∧ _))

section Divisions

/-- One more case of a switch. -/
theorem trapped_ite {c : Prop} [Decidable c] {s₁ s₂ : Sim} {b : Bool}
    (h₁ : c → s₁.trapped = b) (h₂ : ¬ c → s₂.trapped = b) :
    (if c then s₁ else s₂).trapped = b := by
  split
  next h => exact h₁ h
  next h => exact h₂ h

variable (s : Sim)

/-- A division whose case traps on a condition. -/
theorem trapped_division_iff (c : Prop) [Decidable c] (f : CpuState → CpuState) :
    (if c then { s with trapped := true } else s.assign f).trapped = true ↔
      s.trapped = true ∨ c := by
  split
  next h => exact iff_of_true rfl (.inr h)
  next h => exact (or_iff_left h).symm

/-- The two divisions of a word that is dispatched. -/
theorem executeR_division (rs rt shamt : BitVec 32) {rd : BitVec 32} (hrd : rd ≠ 0)
    {funct : BitVec 32} (hf : funct = DIV ∨ funct = DIVU) :
    (executeR s rs rt rd shamt funct).trapped = true ↔
      s.trapped = true ∨ undefinedDivision (s.current.reg rs) (s.current.reg rt) funct := by
  have hguard : ∀ funct : BitVec 32, ¬ (rd = 0 ∧ funct ≠ 0x0c) := fun _ h => hrd h.1
  rcases hf with rfl | rfl
  · have heq : executeR s rs rt rd shamt DIV =
        if s.current.reg rt = 0 ∨
            (s.current.reg rs = 0x80000000 ∧ s.current.reg rt = 0xFFFFFFFF) then
          { s with trapped := true }
        else s.assign fun n =>
          { n with
            lo := (s.current.reg rs).sdiv (s.current.reg rt)
            hi := (s.current.reg rs).srem (s.current.reg rt)
            pc := s.current.pc + 4 } := (if_neg (hguard DIV)).trans rfl
    have hundef : undefinedDivision (s.current.reg rs) (s.current.reg rt) DIV ↔
        s.current.reg rt = 0 ∨
          (s.current.reg rs = 0x80000000 ∧ s.current.reg rt = 0xFFFFFFFF) := by
      unfold undefinedDivision
      simp [DIV, DIVU]
    rw [heq, hundef, trapped_division_iff]
  · have heq : executeR s rs rt rd shamt DIVU =
        if s.current.reg rt = 0 then { s with trapped := true }
        else s.assign fun n =>
          { n with
            lo := s.current.reg rs / s.current.reg rt
            hi := s.current.reg rs % s.current.reg rt
            pc := s.current.pc + 4 } := (if_neg (hguard DIVU)).trans rfl
    have hundef : undefinedDivision (s.current.reg rs) (s.current.reg rt) DIVU ↔
        s.current.reg rt = 0 := by
      unfold undefinedDivision
      simp [DIV, DIVU]
    rw [heq, hundef, trapped_division_iff]

/-- Nothing else divides. -/
theorem executeR_no_division (rs rt rd shamt : BitVec 32) {funct : BitVec 32}
    (h : rd = 0 ∨ funct ≠ DIV ∧ funct ≠ DIVU) :
    (executeR s rs rt rd shamt funct).trapped = s.trapped := by
  by_cases hguard : rd = 0 ∧ funct ≠ 0x0c
  · rw [show executeR s rs rt rd shamt funct = s.assign (·.setPc (s.current.pc + 4)) from
      if_pos hguard]
    rfl
  · have hdiv : funct ≠ DIV ∧ funct ≠ DIVU := by
      rcases h with hrd | hne
      · have hsys : funct = 0x0c := not_not.mp fun hne => hguard ⟨hrd, hne⟩
        rw [hsys]
        decide
      · exact hne
    unfold executeR
    dsimp only
    repeat' refine trapped_ite (fun _ => ?_) fun _ => ?_
    all_goals first
      | rfl
      | exact absurd ‹funct = DIV› hdiv.1
      | exact absurd ‹funct = DIVU› hdiv.2

theorem executeR_trapped (rs rt rd shamt funct : BitVec 32) :
    (executeR s rs rt rd shamt funct).trapped = true ↔
      s.trapped = true ∨
        rd ≠ 0 ∧ undefinedDivision (s.current.reg rs) (s.current.reg rt) funct := by
  by_cases h : rd = 0 ∨ funct ≠ DIV ∧ funct ≠ DIVU
  · have hnone : ¬ (rd ≠ 0 ∧ undefinedDivision (s.current.reg rs) (s.current.reg rt) funct) := by
      rintro ⟨hrd, ⟨hdiv, -⟩ | ⟨hdivu, -⟩⟩
      · exact (h.resolve_left hrd).1 hdiv
      · exact (h.resolve_left hrd).2 hdivu
    rw [executeR_no_division s rs rt rd shamt h, or_iff_left hnone]
  · have hrd : rd ≠ 0 := fun h0 => h (.inl h0)
    have hdiv : funct = DIV ∨ funct = DIVU := by
      by_contra hno
      exact h (.inr ⟨fun hd => hno (.inl hd), fun hd => hno (.inr hd)⟩)
    rw [executeR_division s rs rt shamt hrd hdiv]
    exact or_congr_right (iff_and_self.mpr fun _ => hrd)

/-- Nothing else leaves the operation of C undefined. -/
theorem executeI_trapped (opcode rs rt imm : BitVec 32) :
    (executeI s opcode rs rt imm).trapped = s.trapped := by
  unfold executeI
  dsimp only
  repeat' refine trapped_ite (fun _ => ?_) fun _ => ?_
  all_goals rfl

theorem executeJ_trapped (opcode target : BitVec 32) :
    (executeJ s opcode target).trapped = s.trapped := by
  unfold executeJ
  repeat' refine trapped_ite (fun _ => ?_) fun _ => ?_
  all_goals rfl

/-- What a cycle traps on. -/
theorem cycle_trapped : (cycle s).trapped = true ↔ s.trapped = true ∨ s.crashes := by
  unfold Sim.crashes
  generalize hw : s.memRead s.current.pc = w
  unfold cycle
  rw [processInstruction_eq hw]
  show (dispatch (decodeInstrType w) { s with instrOpcode := w } w).trapped = true ↔ _
  cases htype : decodeInstrType w with
  | r =>
      show (decodeR { s with instrOpcode := w } w).trapped = true ↔ _
      simp only [decodeR, field_rs, field_rt, field_rd]
      rw [executeR_trapped, reg_field, reg_field]
      have hrd : (rd w).setWidth 32 ≠ (0 : BitVec 32) ↔ rd w ≠ 0 :=
        not_congr (field_eq_zero (rd w))
      rw [hrd]
      exact or_congr_right ⟨fun h => ⟨htype, h⟩, fun h => h.2⟩
  | i =>
      have hkeep : (decodeI { s with instrOpcode := w } w).trapped = s.trapped :=
        executeI_trapped _ _ _ _ _
      show (decodeI { s with instrOpcode := w } w).trapped = true ↔ _
      rw [hkeep]
      exact (or_iff_left fun h => InstrType.noConfusion (htype.symm.trans h.1)).symm
  | j =>
      have hkeep : (decodeJ { s with instrOpcode := w } w).trapped = s.trapped :=
        executeJ_trapped _ _ _
      show (decodeJ { s with instrOpcode := w } w).trapped = true ↔ _
      rw [hkeep]
      exact (or_iff_left fun h => InstrType.noConfusion (htype.symm.trans h.1)).symm

/-- What a run traps on. -/
theorem cycles_trapped (k : Nat) :
    (cycles s k).trapped = true ↔ s.trapped = true ∨ ∃ i < k, (cycles s i).crashes := by
  induction k with
  | zero => simp [cycles]
  | succ k ih =>
      rw [cycles, cycle_trapped, ih, or_assoc]
      refine or_congr_right ⟨?_, ?_⟩
      · rintro (⟨i, hi, hcrash⟩ | hcrash)
        · exact ⟨i, by omega, hcrash⟩
        · exact ⟨k, by omega, hcrash⟩
      · rintro ⟨i, hi, hcrash⟩
        rcases Nat.lt_succ_iff_lt_or_eq.mp hi with hlt | rfl
        · exact .inl ⟨i, hlt, hcrash⟩
        · exact .inr hcrash

variable {s}

/-- A word whose division is defined, or that the guard on `rd` stops, does not bring the
simulator down, and no run does that meets no other word. -/
theorem division_safe_iff (h : s.trapped = false) :
    (∀ rs rt rd shamt funct : BitVec 32,
      (executeR s rs rt rd shamt funct).trapped = false ↔
        rd = 0 ∨ ¬ undefinedDivision (s.current.reg rs) (s.current.reg rt) funct) ∧
    ∀ k, (cycles s k).trapped = false ↔ ∀ i < k, ¬ (cycles s i).crashes := by
  have hfalse : ¬ s.trapped = true := by
    rw [h]
    exact Bool.false_ne_true
  constructor
  · intro rs rt rd shamt funct
    rw [← Bool.not_eq_true, executeR_trapped, or_iff_right hfalse, not_and_or, not_not]
  · intro k
    rw [← Bool.not_eq_true, cycles_trapped, or_iff_right hfalse]
    push Not
    exact Iff.rfl

end Divisions

/-- `ADDI r1, r0, -7`, `ADDI r2, r0, 2` and `DIV r1, r2` with 1 in the field of `rd`. -/
def halfProgram : Sim :=
  loadProgram initMemory [(0, 0x2001FFF9), (4, 0x20020002), (8, 0x0022081A)]

/-- `DIV` with `rd = 0`, the encoding of the architecture, is stopped by the guard; with
another `rd`, -7 is divided by 2. -/
theorem division_safe_halfProgram :
    (executeR initMemory 0 0 0 0 DIV).trapped = false ∧
      (cycles halfProgram 3).trapped = false ∧ (cycles halfProgram 3).current.lo = -3 ∧
        (cycles halfProgram 3).current.hi = -1 := by
  have hguard := (division_safe_iff (s := initMemory) rfl).1 0 0 0 0 DIV
  have hrun := (division_safe_iff (s := halfProgram) rfl).2 3
  have hcheck : (List.range 3).all (fun i => !decide (cycles halfProgram i).crashes) = true := by
    decide +kernel
  refine ⟨hguard.mpr (.inl rfl), hrun.mpr fun i hi => ?_, by decide +kernel, by decide +kernel⟩
  simpa using List.all_eq_true.mp hcheck i (List.mem_range.mpr hi)

/-- `DIV r0, r0` with 1 in the field of `rd`, as the first word of a program. -/
theorem division_by_zero_traps :
    ¬ ((∀ (s : Sim) (rs rt rd shamt funct : BitVec 32), s.trapped = false →
        (executeR s rs rt rd shamt funct).trapped = false) ∧
      ∀ (words : List (BitVec 32 × BitVec 32)) (k : Nat),
        (cycles (loadProgram initMemory words) k).trapped = false) := by
  rintro ⟨-, h⟩
  exact absurd (h [(0, 0x0000081A)] 1) (by decide +kernel)

/-! ## Arithmetic shifts -/

section Shifts

/-- The sign that `execute_r` computes. -/
theorem shifted_out (x : BitVec 32) : (x &&& 0x10000000) >>> 31 = 0 := by
  apply BitVec.eq_of_getLsbD_eq
  intro i hi
  have hbit : (0x10000000 : BitVec 32).getLsbD (31 + i) = false := by
    by_cases h0 : i = 0
    · subst h0
      rfl
    · exact BitVec.getLsbD_of_ge _ _ (by omega)
  rw [BitVec.getLsbD_ushiftRight, BitVec.getLsbD_and, hbit, Bool.and_false]
  exact (BitVec.getLsbD_zero ..).symm

/-- What a case that writes `rd` leaves there. -/
theorem next_reg_write (s : Sim) (rd value pc : BitVec 32) :
    (s.assign fun n => (n.setReg rd value).setPc pc).next.reg rd = value :=
  Function.update_self ..

variable (s : Sim) (rs rt : BitVec 32) {rd : BitVec 32} (hrd : rd ≠ 0)

include hrd

theorem executeR_sra (shamt : BitVec 32) :
    (executeR s rs rt rd shamt SRA).next.reg rd = s.current.reg rt >>> shamt := by
  have heq : executeR s rs rt rd shamt SRA = s.assign fun n =>
      (n.setReg rd
        (if (s.current.reg rs &&& 0x10000000) >>> 31 = 1 then
          s.current.reg rt >>> shamt ||| shiftConst shamt else s.current.reg rt >>> shamt)).setPc
        (s.current.pc + 4) := (if_neg fun h => hrd h.1).trans rfl
  rw [heq, next_reg_write, shifted_out, if_neg (by decide)]

theorem executeR_srav (shamt : BitVec 32) :
    (executeR s rs rt rd shamt SRAV).next.reg rd =
      s.current.reg rt >>> (s.current.reg rs &&& 0x1F) := by
  have heq : executeR s rs rt rd shamt SRAV = s.assign fun n =>
      (n.setReg rd
        (if (s.current.reg rs &&& 0x10000000) >>> 31 = 1 then
          s.current.reg rt >>> (s.current.reg rs &&& 0x1F) |||
            shiftConst (s.current.reg rs &&& 0x1F)
        else s.current.reg rt >>> (s.current.reg rs &&& 0x1F))).setPc
        (s.current.pc + 4) := (if_neg fun h => hrd h.1).trans rfl
  rw [heq, next_reg_write, shifted_out, if_neg (by decide)]

/-- An arithmetic shift is right where nothing is shifted, or no sign. -/
theorem sra_iff (shamt : BitVec 5) :
    ((executeR s rs rt rd (shamt.setWidth 32) SRA).next.reg rd =
        (s.current.reg rt).sshiftRight shamt.toNat ↔
      shamt = 0 ∨ (s.current.reg rt).msb = false) ∧
    ((executeR s rs rt rd (shamt.setWidth 32) SRAV).next.reg rd =
        (s.current.reg rt).sshiftRight ((s.current.reg rs).toNat % 32) ↔
      (s.current.reg rs).toNat % 32 = 0 ∨ (s.current.reg rt).msb = false) := by
  constructor
  · have hzero : shamt.toNat = 0 ↔ shamt = 0 := BitVec.toNat_inj (y := 0#5)
    rw [executeR_sra s rs rt hrd, BitVec.ushiftRight_eq',
      BitVec.toNat_setWidth_of_le (by decide), sshiftRight_eq_iff, hzero]
  · have hamount : (s.current.reg rs &&& 0x1F).toNat = (s.current.reg rs).toNat % 32 :=
      toNat_and_31 _
    rw [executeR_srav s rs rt hrd, BitVec.ushiftRight_eq', hamount, sshiftRight_eq_iff]

end Shifts

/-- `16 >> 2` and, with 2 in the register, again. -/
theorem sra_of_positive :
    (executeR (withOperands 16 2) 2 1 3 2 SRA).next.reg 3 = 4 ∧
      (executeR (withOperands 16 2) 2 1 3 2 SRAV).next.reg 3 = 4 := by
  have h := sra_iff (withOperands 16 2) 2 1 (show (3 : BitVec 32) ≠ 0 by decide) 2
  exact ⟨h.1.mpr (.inr (by decide)), h.2.mpr (.inr (by decide))⟩

/-- Zero is shifted into `-1`. -/
theorem sra_of_negative :
    ¬ ∀ (s : Sim) (rs rt rd : BitVec 32) (shamt : BitVec 5), rd ≠ 0 →
      (executeR s rs rt rd (shamt.setWidth 32) SRA).next.reg rd =
          (s.current.reg rt).sshiftRight shamt.toNat ∧
        (executeR s rs rt rd (shamt.setWidth 32) SRAV).next.reg rd =
          (s.current.reg rt).sshiftRight ((s.current.reg rs).toNat % 32) := by
  intro h
  exact absurd (h (withOperands 0xFFFFFFFF 0) 2 1 3 1 (by decide)).1 (by decide)

end SimpleCpu.Mips.Iss
