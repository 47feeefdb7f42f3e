import SimpleCpu.Pipeline.Step

/-!
# The zero register

Where nothing but zero is ever written back to the zero register, it stays zero in every
cycle, and an instruction that reads it computes with zero, forwarded or not.  Unlike the
invariant of the refinement, this one asks nothing of the words that are fetched and
nothing of the predictions.
-/

namespace SimpleCpu.Pipeline

namespace Core

variable {W R D M Mem P : Type} [DecidableEq R]

section Definitions

variable (C : Core W R D M Mem P)

/-- What is written back to the zero register is zero, and an empty execute register has
read zero from it. -/
structure MasksZero : Prop where
  finish : ∀ m mem, (C.finish m mem).wrEn = true → (C.finish m mem).rd = C.zeroReg →
    (C.finish m mem).data = C.zeroVal
  bubble1 : C.rs1 C.exBubble.dec = C.zeroReg → C.exBubble.v1 = C.zeroVal
  bubble2 : C.rs2 C.exBubble.dec = C.zeroReg → C.exBubble.v2 = C.zeroVal

/-- The zero register holds zero, and so does every latch that was read from it or is
about to be written to it. -/
structure HoldsZero (s : State W R D M Mem P) : Prop where
  regs : s.regs C.zeroReg = C.zeroVal
  wb : s.wb.wrEn = true → s.wb.rd = C.zeroReg → s.wb.data = C.zeroVal
  v1 : C.rs1 s.ex.dec = C.zeroReg → s.ex.v1 = C.zeroVal
  v2 : C.rs2 s.ex.dec = C.zeroReg → s.ex.v2 = C.zeroVal

end Definitions

variable {C : Core W R D M Mem P} {s : State W R D M Mem P}

namespace HoldsZero

variable (h : C.HoldsZero s)

include h

/-- The write port does not change the zero register. -/
theorem apply_zeroReg : s.wb.apply s.regs C.zeroReg = C.zeroVal := by
  by_cases hw : s.wb.wrEn = true ∧ s.wb.rd = C.zeroReg
  · obtain ⟨hen, hrd⟩ := hw
    exact (WriteBack.apply_of_written hen hrd).trans (h.wb hen hrd)
  · have hno : s.wb.wrEn = true → s.wb.rd ≠ C.zeroReg := fun hen hrd => hw ⟨hen, hrd⟩
    exact (WriteBack.apply_of_not_written hno).trans h.regs

omit h in
/-- Nothing is forwarded to a port that reads the zero register. -/
theorem fwd_zeroReg : C.fwdMid s C.zeroReg = false ∧ C.fwdWb s C.zeroReg = false := by
  unfold fwdMid fwdWb
  constructor
  · by_cases hrd : C.rd s.mid = C.zeroReg <;> simp [hrd]
  · by_cases hrd : s.wb.rd = C.zeroReg <;> simp [hrd]

theorem op1_eq (hrs : C.rs1 s.ex.dec = C.zeroReg) : C.op1 s = C.zeroVal := by
  obtain ⟨hmid, hwb⟩ := fwd_zeroReg (C := C) (s := s)
  unfold op1
  rw [hrs, hmid, hwb]
  exact h.v1 hrs

theorem op2_eq (hrs : C.rs2 s.ex.dec = C.zeroReg) : C.op2 s = C.zeroVal := by
  obtain ⟨hmid, hwb⟩ := fwd_zeroReg (C := C) (s := s)
  unfold op2
  rw [hrs, hmid, hwb]
  exact h.v2 hrs

variable [DecidableEq W]

theorem step (hC : C.MasksZero) : C.HoldsZero (C.step s) where
  regs := h.apply_zeroReg
  wb := hC.finish s.mid s.mem
  v1 := by
    show C.rs1 (if C.flushEx s then C.exBubble else C.issued s).dec = C.zeroReg →
      (if C.flushEx s then C.exBubble else C.issued s).v1 = C.zeroVal
    cases C.flushEx s with
    | true => exact hC.bubble1
    | false =>
        intro hrs
        have hrs' : C.rs1 (C.issDec s) = C.zeroReg := hrs
        show s.wb.apply s.regs (C.rs1 (C.issDec s)) = C.zeroVal
        rw [hrs']
        exact h.apply_zeroReg
  v2 := by
    show C.rs2 (if C.flushEx s then C.exBubble else C.issued s).dec = C.zeroReg →
      (if C.flushEx s then C.exBubble else C.issued s).v2 = C.zeroVal
    cases C.flushEx s with
    | true => exact hC.bubble2
    | false =>
        intro hrs
        have hrs' : C.rs2 (C.issDec s) = C.zeroReg := hrs
        show s.wb.apply s.regs (C.rs2 (C.issDec s)) = C.zeroVal
        rw [hrs']
        exact h.apply_zeroReg

theorem run (hC : C.MasksZero) (t : Nat) : C.HoldsZero (C.run s t) := by
  induction t with
  | zero => exact h
  | succ t ih => exact ih.step hC

end HoldsZero

end Core

end SimpleCpu.Pipeline
