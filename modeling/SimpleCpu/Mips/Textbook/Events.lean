import SimpleCpu.Mips.Textbook.SingleCycle
import SimpleCpu.Rtl.Sensitivity

/-!
# The decoder of the single-cycle processor under events

`aludec` reads `funct` but is sensitive to `aluop` only.  Here the two blocks of `control`
run when their lists change and keep their outputs otherwise; an `x` is `none`.

* `maindec_aluop`: `maindec`, sensitive to all it reads, is combinational.
* `alucontrol_iff`: `aludec` is where no instruction follows one of its class whose `funct`
  is decoded otherwise.
* `aluopToAlu_eq`: the combinational decoder of `Top` is what `aludec` is meant to be.
-/

namespace SimpleCpu.Mips.Textbook.SingleCycle

open SimpleCpu.Rtl SimpleCpu.Mips.Isa

/-! ## The blocks -/

/-- `aluop`, a part of `controls`. -/
def aluopOf (controls : Option (BitVec 11)) : Option (BitVec 2) :=
  controls.map fun c => c.extractLsb' 2 2

/-- The two blocks of `control`. -/
structure Decoder where
  md : AlwaysBlock (Option (BitVec 6)) (Option (BitVec 11))
  ad : AlwaysBlock (Option (BitVec 2)) (Option (BitVec 3))

namespace Decoder

/-- Before the first instruction everything is `x`. -/
def initial : Decoder where
  md := { seen := none, out := none }
  ad := { seen := none, out := none }

def aluop (d : Decoder) : Option (BitVec 2) := aluopOf d.md.out

def alucontrol (d : Decoder) : Option (BitVec 3) := d.ad.out

/-- The instruction becomes `w`.  What `maindec` leaves is seen by `aludec`. -/
def step (d : Decoder) (w : BitVec 32) : Decoder :=
  let md := d.md.step (fun o _ => o.bind controlsOf) (some (op w)) ()
  { md := md
    ad := d.ad.step alucontrolOf (aluopOf md.out) (funct w) }

/-- The decoder in the cycle of the `k`-th instruction, counted from one. -/
def after (w : Nat → BitVec 32) : Nat → Decoder
  | 0 => initial
  | k + 1 => (after w k).step (w k)

variable (w : Nat → BitVec 32)

theorem after_md (k : Nat) : (after w k).md =
    initial.md.run (fun o _ => o.bind controlsOf) (fun i => some (op (w i))) (fun _ => ()) k := by
  induction k with
  | zero => rfl
  | succ k ih =>
      show (after w k).md.step (fun o _ => o.bind controlsOf) (some (op (w k))) () = _
      rw [ih]
      rfl

/-- `maindec` decodes the instruction of the cycle. -/
theorem maindec_aluop (k : Nat) : (after w (k + 1)).aluop = aluopOf (controlsOf (op (w k))) := by
  have hout : (initial.md.run (fun o _ => o.bind controlsOf) (fun i => some (op (w i)))
      (fun _ => ()) (k + 1)).out = (some (op (w k))).bind controlsOf :=
    AlwaysBlock.run_out (Option.some_ne_none _) k
  unfold aluop
  rw [after_md, hout]
  rfl

theorem after_ad (k : Nat) : (after w k).ad =
    initial.ad.run alucontrolOf (fun i => aluopOf (controlsOf (op (w i))))
      (fun i => funct (w i)) k := by
  induction k with
  | zero => rfl
  | succ k ih =>
      show (after w k).ad.step alucontrolOf (after w (k + 1)).aluop (funct (w k)) = _
      rw [maindec_aluop, ih]
      rfl

end Decoder

/-! ## When `aludec` is stale -/

/-- Two R-type instructions, or two that `maindec` does not know. -/
def SameClass (w w' : BitVec 32) : Prop :=
  (op w = 0 ∧ op w' = 0) ∨ (controlsOf (op w) = none ∧ controlsOf (op w') = none)

/-- What an opcode gives, and whether `funct` matters. -/
theorem aluop_cases : ∀ o : BitVec 6,
    (o = 0 ∧ aluopOf (controlsOf o) = some 0b10) ∨
      (controlsOf o = none ∧ aluopOf (controlsOf o) = none) ∨
      (aluopOf (controlsOf o) = some 0b00 ∨ aluopOf (controlsOf o) = some 0b01 ∨
        aluopOf (controlsOf o) = some 0b11) := by
  decide +kernel

theorem alucontrolOf_eq_iff {w w' : BitVec 32}
    (h : aluopOf (controlsOf (op w')) = aluopOf (controlsOf (op w))) :
    alucontrolOf (aluopOf (controlsOf (op w))) (funct w) =
        alucontrolOf (aluopOf (controlsOf (op w'))) (funct w') ↔
      (SameClass w w' → functCode (funct w) = functCode (funct w')) := by
  unfold alucontrolOf SameClass
  rcases aluop_cases (op w) with ⟨ho, hal⟩ | ⟨ho, hal⟩ | hal
  · rcases aluop_cases (op w') with ⟨ho', hal'⟩ | ⟨-, hal'⟩ | hal'
    · rw [hal, hal']
      simp [ho, ho']
    · rw [hal, hal'] at h
      exact absurd h (Option.some_ne_none _).symm
    · rw [hal] at h
      rw [h] at hal'
      exact absurd hal' (by decide)
  · rcases aluop_cases (op w') with ⟨-, hal'⟩ | ⟨ho', hal'⟩ | hal'
    · rw [hal, hal'] at h
      exact absurd h (Option.some_ne_none _)
    · rw [hal, hal']
      simp [ho, ho']
    · rw [hal] at h
      rw [h] at hal'
      exact absurd hal' (by decide)
  · have hclass : ¬ ((op w = 0 ∧ op w' = 0) ∨
        (controlsOf (op w) = none ∧ controlsOf (op w') = none)) := by
      rintro (⟨ho, -⟩ | ⟨ho, -⟩)
      · rw [ho] at hal
        exact absurd hal (by decide)
      · rw [ho] at hal
        exact absurd hal (by decide)
    refine iff_of_true ?_ fun hc => absurd hc hclass
    rw [h]
    rcases hal with hal | hal | hal <;> rw [hal] <;> rfl

/-- For every sequence of instructions, one a cycle, `alucontrol` is the decoding of the
cycle's own `aluop` and `funct` in each of the first `n` cycles exactly if no instruction
follows one of its class whose `funct` is decoded otherwise; and if the first instruction
is unknown, its `funct` is. -/
theorem alucontrol_iff (w : Nat → BitVec 32) (n : Nat) :
    (∀ k < n, (Decoder.after w (k + 1)).alucontrol =
        alucontrolOf (Decoder.after w (k + 1)).aluop (funct (w k))) ↔
      (0 < n → controlsOf (op (w 0)) = none → functCode (funct (w 0)) = none) ∧
        ∀ k, k + 1 < n → SameClass (w k) (w (k + 1)) →
          functCode (funct (w k)) = functCode (funct (w (k + 1))) := by
  have hrun : ∀ k, (Decoder.after w k).alucontrol =
      (Decoder.initial.ad.run alucontrolOf (fun i => aluopOf (controlsOf (op (w i))))
        (fun i => funct (w i)) k).out := fun k => congrArg AlwaysBlock.out (Decoder.after_ad w k)
  simp only [hrun, Decoder.maindec_aluop]
  refine (AlwaysBlock.run_out_iff n).trans (and_congr ?_ ?_)
  · refine forall_congr' fun _ => ?_
    show (aluopOf (controlsOf (op (w 0))) = none →
      none = alucontrolOf (aluopOf (controlsOf (op (w 0)))) (funct (w 0))) ↔ _
    have hnone : aluopOf (controlsOf (op (w 0))) = none ↔ controlsOf (op (w 0)) = none :=
      Option.map_eq_none_iff
    rw [hnone]
    refine forall_congr' fun ho => ?_
    rw [ho]
    exact eq_comm
  · refine forall_congr' fun k => forall_congr' fun _ => ?_
    constructor
    · intro hstep hclass
      have hkey : aluopOf (controlsOf (op (w (k + 1)))) = aluopOf (controlsOf (op (w k))) := by
        rcases hclass with ⟨ho, ho'⟩ | ⟨ho, ho'⟩
        · rw [ho, ho']
        · rw [ho, ho']
      exact (alucontrolOf_eq_iff hkey).mp (hstep hkey) hclass
    · intro hstep hkey
      exact (alucontrolOf_eq_iff hkey).mpr hstep

/-- `ADD R3, R1, R2` and `SUB R3, R1, R2`: in the second cycle the ALU still adds. -/
theorem alucontrol_stale :
    ¬ ∀ (w : Nat → BitVec 32) (k : Nat), (Decoder.after w (k + 1)).alucontrol =
      alucontrolOf (Decoder.after w (k + 1)).aluop (funct (w k)) := by
  intro hall
  exact absurd (hall (fun k => if k = 0 then 0x00221820 else 0x00221822) 1) (by decide +kernel)

/-! ## The combinational decoder -/

/-- For an instruction that `maindec` knows, `Top` has the decoding of its fields. -/
theorem aluopToAlu_eq (imem : BitVec 32 → BitVec 32) (s : Top) {c : BitVec 11}
    (h : controlsOf (op (s.instruction imem)) = some c) :
    (alucontrolOf (aluopOf (controlsOf (op (s.instruction imem))))
      (funct (s.instruction imem))).getD 0 = s.aluopToAlu imem := by
  show _ = aludec (funct (s.instruction imem)) (maindec (op (s.instruction imem))).aluop
  rw [maindec, h]
  rfl

end SimpleCpu.Mips.Textbook.SingleCycle
