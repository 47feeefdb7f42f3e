import SimpleCpu.Mips.Arithmetic

/-!
# R-type words with register 0 as destination

`execute_r` returns at once when `rd` is 0 and the word is no `SYSCALL`.  The encodings
that have 0 in this field because they write something else, a jump among them, then only
advance the program counter.

* `cycle_prescribed`: what the functions do besides writing `rd`, where the word is
  dispatched.
* `rd_zero_iff`: where that has happened although the guard returned.
-/

namespace SimpleCpu.Mips.Iss

open SimpleCpu.Bits SimpleCpu.Iss SimpleCpu.Mips.Isa

/-! ## Effects -/

/-- What a word may change besides the register in its `rd` field. -/
structure Effects where
  pc : BitVec 32
  hi : BitVec 32
  lo : BitVec 32
  runBit : Bool
  r31 : BitVec 32
  deriving DecidableEq

def Sim.effects (s : Sim) : Effects where
  pc := s.current.pc
  hi := s.current.hi
  lo := s.current.lo
  runBit := s.runBit
  r31 := s.current.regs 31

/-- The next instruction, and nothing else. -/
def Sim.advanced (s : Sim) : Effects := { s.effects with pc := s.current.pc + 4 }

/-- What a function is to do, whatever the `rd` field holds.  One that `execute_r` has no
case for does nothing. -/
def Sim.prescribed (s : Sim) (a b funct : BitVec 32) : Effects :=
  let product : BitVec 64 := a.signExtend 64 * b.signExtend 64
  let productU : BitVec 64 := a.setWidth 64 * b.setWidth 64
  if funct = JR then { s.advanced with pc := a }
  else if funct = JALR then { s.advanced with pc := a, r31 := s.current.pc + 4 }
  else if funct = MULT then
    { s.advanced with hi := product.extractLsb' 32 32, lo := product.extractLsb' 0 32 }
  else if funct = MULTU then
    { s.advanced with hi := productU.extractLsb' 32 32, lo := productU.extractLsb' 0 32 }
  else if funct = MTHI then { s.advanced with hi := a }
  else if funct = MTLO then { s.advanced with lo := a }
  else if funct = DIV then
    if b = 0 then s.advanced else { s.advanced with lo := a.sdiv b, hi := a.srem b }
  else if funct = DIVU then
    if b = 0 then s.advanced else { s.advanced with lo := a / b, hi := a % b }
  else if funct = SYSCALL then
    { s.advanced with runBit := if s.current.regs 2 = 0xA then false else s.runBit }
  else if writesRd funct then s.advanced
  else s.effects

section Effects

variable (s : Sim) (a b : BitVec 32)

/-- What the function is to do besides writing `rd` is the case already, or happens in the
guard. -/
def inPlace (funct : BitVec 32) : Prop :=
  if funct = JR then a = s.current.pc + 4
  else if funct = JALR then a = s.current.pc + 4 ∧ s.current.regs 31 = s.current.pc + 4
  else if funct = MULT then
    s.current.hi ++ s.current.lo = a.signExtend 64 * b.signExtend 64
  else if funct = MULTU then s.current.hi ++ s.current.lo = a.setWidth 64 * b.setWidth 64
  else if funct = MTHI then s.current.hi = a
  else if funct = MTLO then s.current.lo = a
  else if funct = DIV then b = 0 ∨ s.current.lo = a.sdiv b ∧ s.current.hi = a.srem b
  else if funct = DIVU then b = 0 ∨ s.current.lo = a / b ∧ s.current.hi = a % b
  else funct = SYSCALL ∨ writesRd funct = true

/-- One more function. -/
theorem eq_ite_iff {c : Prop} [Decidable c] {x y z : Effects} {p q : Prop}
    (h₁ : c → (x = y ↔ p)) (h₂ : ¬ c → (x = z ↔ q)) :
    (x = if c then y else z) ↔ if c then p else q := by
  split
  next h => exact h₁ h
  next h => exact h₂ h

/-- A division, where the divisor is not zero. -/
theorem advanced_eq_division_iff (lo hi : BitVec 32) :
    s.advanced = (if b = 0 then s.advanced else { s.advanced with lo := lo, hi := hi }) ↔
      b = 0 ∨ s.current.lo = lo ∧ s.current.hi = hi := by
  by_cases hb : b = 0
  · rw [if_pos hb]
    exact iff_of_true rfl (.inl hb)
  · rw [if_neg hb, or_iff_right hb]
    simp [Sim.advanced, Sim.effects, and_comm]

/-- The guard does what is prescribed. -/
theorem advanced_eq_prescribed_iff {funct : BitVec 32} (hsys : funct ≠ SYSCALL) :
    s.advanced = s.prescribed a b funct ↔ inPlace s a b funct := by
  unfold Sim.prescribed inPlace
  refine eq_ite_iff (fun _ => ?_) fun _ => ?_
  · simp [Sim.advanced, Sim.effects, eq_comm]
  refine eq_ite_iff (fun _ => ?_) fun _ => ?_
  · simp [Sim.advanced, Sim.effects, eq_comm]
  refine eq_ite_iff (fun _ => ?_) fun _ => ?_
  · rw [append_eq_iff]
    simp [Sim.advanced, Sim.effects]
  refine eq_ite_iff (fun _ => ?_) fun _ => ?_
  · rw [append_eq_iff]
    simp [Sim.advanced, Sim.effects]
  refine eq_ite_iff (fun _ => ?_) fun _ => ?_
  · simp [Sim.advanced, Sim.effects]
  refine eq_ite_iff (fun _ => ?_) fun _ => ?_
  · simp [Sim.advanced, Sim.effects]
  refine eq_ite_iff (fun _ => advanced_eq_division_iff s b _ _) fun _ => ?_
  refine eq_ite_iff (fun _ => advanced_eq_division_iff s b _ _) fun _ => ?_
  rw [if_neg hsys, or_iff_right hsys]
  split
  next hw => exact iff_of_true rfl hw
  next hw =>
    refine iff_of_false (fun heq => ?_) hw
    have hpc : s.current.pc + 4 = s.current.pc := congrArg Effects.pc heq
    bv_omega

end Effects

/-! ## The guard -/

theorem executeR_guard (s : Sim) (rs rt shamt : BitVec 32) {rd funct : BitVec 32} (hrd : rd = 0)
    (hsys : funct ≠ SYSCALL) :
    executeR s rs rt rd shamt funct = s.assign (·.setPc (s.current.pc + 4)) :=
  if_pos ⟨hrd, hsys⟩

/-- The guard lets a `SYSCALL` pass. -/
theorem executeR_syscall (s : Sim) (rs rt rd shamt : BitVec 32) :
    executeR s rs rt rd shamt SYSCALL =
      { s with
        runBit := if s.current.reg 2 = 0xA then false else s.runBit
        next := s.next.setPc (s.current.pc + 4) } := by
  have hcase : executeR s rs rt rd shamt SYSCALL =
      (if s.current.reg 2 = 0xA then { s with runBit := false } else s).assign
        (·.setPc (s.current.pc + 4)) := (if_neg fun h => h.2 rfl).trans rfl
  rw [hcase]
  split
  next => rfl
  next => rfl

/-! ## A dispatched word -/

/-- What a case of the switch leaves in `NEXT_STATE`. -/
def Sim.nextEffects (s : Sim) : Effects := ({ s with current := s.next } : Sim).effects

/-- One more case of the switch. -/
theorem nextEffects_ite {c : Prop} [Decidable c] {s₁ s₂ : Sim} {e : Effects}
    (h₁ : c → s₁.nextEffects = e) (h₂ : ¬ c → s₂.nextEffects = e) :
    (if c then s₁ else s₂).nextEffects = e := by
  split
  next h => exact h₁ h
  next h => exact h₂ h

section Dispatched

variable {s : Sim} (hs : s.next = s.current)

include hs

/-- A case that writes `rd` advances. -/
theorem nextEffects_write {rd : BitVec 5} (h31 : rd ≠ 31) (value : BitVec 32) :
    (s.assign fun n =>
        (n.setReg (rd.setWidth 32) value).setPc (s.current.pc + 4)).nextEffects =
      s.advanced := by
  have hr31 : Function.update s.current.regs rd value 31 = s.current.regs 31 :=
    Function.update_of_ne (Ne.symm h31) value s.current.regs
  unfold Sim.nextEffects Sim.assign Sim.advanced Sim.effects CpuState.setPc
  simp only [setReg_field, hs, hr31]

/-- Where the operation of the function is defined and the product fits, its case of the
switch does what is prescribed. -/
theorem executeR_prescribed {rs rt shamt : BitVec 32} {rd : BitVec 5} (hrd : rd ≠ 0)
    (h31 : rd ≠ 31) {funct : BitVec 32}
    (hdef : ¬ undefinedDivision (s.current.reg rs) (s.current.reg rt) funct)
    (hmult : funct = MULT →
      (s.current.reg rs * s.current.reg rt).setWidth 64 =
        (s.current.reg rs).signExtend 64 * (s.current.reg rt).signExtend 64)
    (hmultu : funct = MULTU →
      (s.current.reg rs * s.current.reg rt).setWidth 64 =
        (s.current.reg rs).setWidth 64 * (s.current.reg rt).setWidth 64) :
    (executeR s rs rt (rd.setWidth 32) shamt funct).nextEffects =
      s.prescribed (s.current.reg rs) (s.current.reg rt) funct := by
  have hwrite := nextEffects_write hs h31
  have hguard : ¬ (rd.setWidth 32 = (0 : BitVec 32) ∧ funct ≠ 0x0c) :=
    fun h => hrd ((field_eq_zero rd).mp h.1)
  have hassign : ∀ f : CpuState → CpuState, (s.assign f).nextEffects =
      ({ s with next := f s.current, current := f s.current } : Sim).effects := fun f => by
    unfold Sim.assign Sim.nextEffects
    rw [hs]
  by_cases hsys : funct = SYSCALL
  · subst hsys
    rw [executeR_syscall]
    unfold Sim.nextEffects
    rw [hs]
    rfl
  unfold executeR
  dsimp only
  refine nextEffects_ite (fun h => absurd h hguard) fun _ => ?_
  repeat' refine nextEffects_ite (fun h => ?_) fun _ => ?_
  all_goals first
    | (subst h; exact hwrite _)
    | (subst h; rw [hassign]; rfl)
    | skip
  · obtain ⟨hhi, hlo⟩ := (append_eq_iff _ _ _).mp
      (halves_setWidth (s.current.reg rs * s.current.reg rt))
    rw [hassign, hhi, hlo]
    rcases h with rfl | rfl
    · rw [hmult rfl]
      rfl
    · rw [hmultu rfl]
      rfl
  · exact absurd (.inl ⟨‹funct = DIV›, h⟩) hdef
  · obtain rfl : funct = DIV := ‹funct = DIV›
    have hdivisor : s.current.reg rt ≠ 0 := fun h0 => hdef (.inl ⟨rfl, .inl h0⟩)
    refine (hassign _).trans (Eq.trans ?_ (if_neg hdivisor).symm)
    rfl
  · exact absurd (.inr ⟨‹funct = DIVU›, h⟩) hdef
  · obtain rfl : funct = DIVU := ‹funct = DIVU›
    have hdivisor : s.current.reg rt ≠ 0 := fun h0 => hdef (.inr ⟨rfl, h0⟩)
    refine (hassign _).trans (Eq.trans ?_ (if_neg hdivisor).symm)
    rfl
  · exact absurd h hsys
  · have hnone : s.prescribed (s.current.reg rs) (s.current.reg rt) funct = s.effects := by
      simp [Sim.prescribed, writesRd, not_or.mp ‹¬ (funct = MULT ∨ funct = MULTU)›, *]
    rw [hnone]
    unfold Sim.nextEffects
    rw [hs]
    rfl

omit hs in
/-- A word that the guard lets pass, and whose destination is not the link register, does
what its function prescribes. -/
theorem cycle_prescribed (hs : s.next = s.current) {w : BitVec 32}
    (hw : s.memRead s.current.pc = w) (htype : decodeInstrType w = .r) (hrd : rd w ≠ 0)
    (h31 : rd w ≠ 31)
    (hdef : ¬ undefinedDivision (s.current.regs (rs w)) (s.current.regs (rt w)) (w &&& 0x3F))
    (hmult : w &&& 0x3F = MULT →
      (s.current.regs (rs w) * s.current.regs (rt w)).setWidth 64 =
        (s.current.regs (rs w)).signExtend 64 * (s.current.regs (rt w)).signExtend 64)
    (hmultu : w &&& 0x3F = MULTU →
      (s.current.regs (rs w) * s.current.regs (rt w)).setWidth 64 =
        (s.current.regs (rs w)).setWidth 64 * (s.current.regs (rt w)).setWidth 64) :
    (cycle s).effects =
      s.prescribed (s.current.regs (rs w)) (s.current.regs (rt w)) (w &&& 0x3F) := by
  rw [cycle_rType hw htype]
  simp only [← reg_field] at hdef hmult hmultu ⊢
  exact executeR_prescribed (s := { s with instrOpcode := w }) hs hrd h31 hdef hmult hmultu

end Dispatched

/-! ## A word with 0 in `rd` -/

section Guard

variable {s : Sim} {w : BitVec 32}

/-- With 0 in `rd` the registers stay, and only a `SYSCALL` does more than advance. -/
theorem cycle_rd_zero (hs : s.next = s.current) (hw : s.memRead s.current.pc = w)
    (htype : decodeInstrType w = .r) (hrd : rd w = 0) :
    (cycle s).current.regs = s.current.regs ∧
      (cycle s).effects =
        if w &&& 0x3F = SYSCALL then
          { s.advanced with runBit := if s.current.regs 2 = 0xA then false else s.runBit }
        else s.advanced := by
  rw [cycle_rType hw htype, hrd]
  by_cases hsys : w &&& 0x3F = SYSCALL
  · rw [if_pos hsys, hsys, executeR_syscall]
    unfold Sim.effects Sim.advanced CpuState.setPc
    dsimp only
    rw [hs]
    exact ⟨rfl, rfl⟩
  · rw [if_neg hsys, executeR_guard _ _ _ _ (show BitVec.setWidth 32 (0 : BitVec 5) = 0 from rfl)
      hsys]
    unfold Sim.assign Sim.effects Sim.advanced CpuState.setPc
    dsimp only
    rw [hs]
    exact ⟨rfl, rfl⟩

/-- With 0 in `rd` a word does what its function prescribes, and keeps the other registers,
exactly where the guard loses nothing. -/
theorem rd_zero_iff (hs : s.next = s.current) (hw : s.memRead s.current.pc = w)
    (htype : decodeInstrType w = .r) (hrd : rd w = 0) :
    ((cycle s).effects =
        s.prescribed (s.current.regs (rs w)) (s.current.regs (rt w)) (w &&& 0x3F) ∧
      ∀ r, r ≠ 31 → (cycle s).current.regs r = s.current.regs r) ↔
    inPlace s (s.current.regs (rs w)) (s.current.regs (rt w)) (w &&& 0x3F) := by
  obtain ⟨hregs, heffects⟩ := cycle_rd_zero hs hw htype hrd
  rw [and_iff_left fun r _ => congrFun hregs r, heffects]
  by_cases hsys : w &&& 0x3F = SYSCALL
  · rw [if_pos hsys, hsys]
    exact iff_of_true rfl (.inl rfl)
  · rw [if_neg hsys]
    exact advanced_eq_prescribed_iff s _ _ hsys

end Guard

/-- `SYSCALL` with 10 in register 2. -/
theorem rd_zero_syscall :
    let s := loadProgram (withOperands 0 10) [(0, 0x0000000C)]
    (cycle s).effects = s.prescribed 0 0 SYSCALL :=
  ((rd_zero_iff (s := loadProgram (withOperands 0 10) [(0, 0x0000000C)]) rfl
    (w := 0x0000000C) (by decide +kernel) (by decide +kernel) (by decide +kernel)).mpr
      (.inl rfl)).1

/-- `JR r1` goes to the next instruction. -/
theorem rd_zero_jr :
    ¬ ∀ (s : Sim) (w : BitVec 32), s.next = s.current → s.memRead s.current.pc = w →
      decodeInstrType w = .r → rd w = 0 →
        (cycle s).effects =
            s.prescribed (s.current.regs (rs w)) (s.current.regs (rt w)) (w &&& 0x3F) ∧
          ∀ r, r ≠ 31 → (cycle s).current.regs r = s.current.regs r := by
  intro h
  have hjr := (h (loadProgram (withOperands 0x40 0) [(0, 0x00200008)]) 0x00200008 rfl
    (by decide +kernel) (by decide +kernel) (by decide +kernel)).1
  exact absurd (congrArg Effects.pc hjr) (by decide +kernel)

end SimpleCpu.Mips.Iss
