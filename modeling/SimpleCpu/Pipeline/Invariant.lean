import SimpleCpu.Pipeline.Basic

/-!
# The pipeline invariant

`Inv` relates one cycle of a pipeline to a run of the sequential machine.  It
follows the instructions by their index in that run: `Track` says which stages
hold an instruction and how many have been written back, and from these two the
index held by every stage is determined.

Only the first `K` instructions are followed.  A stage whose index is `K` or more
is left unconstrained, since nothing younger can disturb an older instruction; so
a program may run into arbitrary words after its `K`-th instruction.
-/

namespace SimpleCpu.Pipeline

variable {W R D M Mem P : Type}

namespace Core

variable (C : Core W R D M Mem P)

/-! ## What is assumed of an instruction set -/

/-- A write-back register that changes nothing. -/
structure InertWb (w : WriteBack W R) : Prop where
  valid : w.valid = false
  wrEn : w.wrEn = true → w.rd = C.zeroReg ∧ w.data = C.zeroVal

/-- A memory-stage bundle that changes nothing and forwards nothing. -/
structure InertMid (m : M) : Prop where
  fwdEn : C.fwdEn m = true → C.rd m = C.zeroReg
  store : ∀ mem, C.store m mem = mem
  finish : ∀ mem, C.InertWb (C.finish m mem)

/-- A decoded instruction that changes nothing and redirects nothing. -/
structure InertDec (d : D) : Prop where
  jump : C.jump d = false
  branch : C.branch d = false
  exec : ∀ v1 v2, C.InertMid (C.exec d v1 v2)

/-- The first operand of `d` is not used. -/
def Ignores1 (d : D) : Prop :=
  ∀ v1 v1' v2, C.exec d v1 v2 = C.exec d v1' v2 ∧ C.taken d v1 v2 = C.taken d v1' v2

/-- The second operand of `d` is not used. -/
def Ignores2 (d : D) : Prop :=
  ∀ v1 v2 v2', C.exec d v1 v2 = C.exec d v1 v2' ∧ C.taken d v1 v2 = C.taken d v1 v2'

/-- What every decoded word satisfies. -/
structure Lawful : Prop where
  taken_branch : ∀ d v1 v2, C.taken d v1 v2 = true → C.branch d = true
  seqPc_decode : ∀ i p n, C.seqPc (C.decode i p n) = n
  finish_rd : ∀ m mem, (C.finish m mem).rd = C.rd m
  finish_fwdEn : ∀ m mem, (C.finish m mem).fwdEn = C.fwdEn m
  fwdEn_wrEn : ∀ m mem, C.fwdEn m = true → (C.finish m mem).wrEn = true
  issBubble_pred : C.issBubble.pred = false
  issBubble_inert :
    C.InertDec (C.decode C.issBubble.instr C.issBubble.pc C.issBubble.nextSeq)
  exBubble_pred : C.exBubble.pred = false
  exBubble_inert : C.InertDec C.exBubble.dec

/-- What is asked of the words that are executed. -/
structure Regular (d : D) : Prop where
  jump_not_branch : C.jump d = true → C.branch d = false
  zeroData : ∀ v1 v2 mem, (C.finish (C.exec d v1 v2) mem).wrEn = true →
    C.rd (C.exec d v1 v2) = C.zeroReg →
    (C.finish (C.exec d v1 v2) mem).data = C.zeroVal

/-- What `d` forwards to the first port is what it writes back.  Nothing is asked of
a jump, which is never followed directly. -/
def Forwards (d : D) : Prop :=
  C.jump d = false → ∀ v1 v2 mem, C.fwdEn (C.exec d v1 v2) = true →
    C.rd (C.exec d v1 v2) ≠ C.zeroReg →
    C.fwdVal1 (C.exec d v1 v2) mem = (C.finish (C.exec d v1 v2) mem).data

/-! ## Tracking instructions by index -/

end Core

/-- Which stages hold a tracked instruction, and how many instructions have been
written back.  `shIss` and `shEx` mark a prediction that was recorded in the shadow
of a branch, for the instruction in the issue and in the execute stage. -/
structure Track where
  n : Nat
  wb : Bool
  mid : Bool
  ex : Bool
  iss : Bool
  shIss : Bool
  shEx : Bool

namespace Track

variable (T : Track)

/-- Index of the instruction in the memory stage. -/
def iMid : Nat := T.n + T.wb.toNat

/-- Index of the instruction in the execute stage. -/
def iEx : Nat := T.iMid + T.mid.toNat

/-- Index of the instruction in the issue stage. -/
def iIss : Nat := T.iEx + T.ex.toNat

/-- Nothing is in flight, right after reset. -/
def empty : Track :=
  { n := 0, wb := false, mid := false, ex := false, iss := false
    shIss := false, shEx := false }

end Track

variable [DecidableEq W] [DecidableEq R]

namespace Core

variable (C : Core W R D M Mem P)

/-- The execute stage sends fetch to another address and squashes what follows. -/
def redirect (s : State W R D M Mem P) : Bool :=
  (C.exTaken s && !C.exCorr s) ||
    (!C.jump s.ex.dec && (s.ex.pred && !C.exCorr s))

def stepTrack (s : State W R D M Mem P) (T : Track) : Track where
  n := T.iMid
  wb := T.mid
  mid := T.ex
  ex := T.iss && !C.flushEx s
  iss := !C.flushIss s
  shIss := C.branch s.ex.dec
  shEx := T.shIss

/-- The occupancy after `t` clocks. -/
def track (s₀ : State W R D M Mem P) : Nat → Track
  | 0 => Track.empty
  | t + 1 => C.stepTrack (C.run s₀ t) (track s₀ t)

/-! ## The invariant -/

section Invariant

variable (K : Nat) (a₀ : Arch W R Mem)

/-- The state at one cycle agrees with the sequential run from `a₀`, as far as
instructions below `K` are concerned. -/
structure Inv (T : Track) (s : State W R D M Mem P) : Prop where
  regs : T.n ≤ K → s.regs = (C.seqRun a₀ T.n).regs
  mem : T.iMid ≤ K → s.mem = (C.seqRun a₀ T.iMid).mem
  wbFwd : s.wb.fwdEn = true → s.wb.wrEn = true
  wbFull : T.wb = true → T.n < K → s.wb = C.seqWb (C.seqRun a₀ T.n)
  wbEmpty : T.wb = false → T.n ≤ K → C.InertWb s.wb
  midFull : T.mid = true → T.iMid < K → s.mid = C.seqMid (C.seqRun a₀ T.iMid)
  midEmpty : T.mid = false → T.iMid ≤ K → C.InertMid s.mid
  exFull : T.ex = true → T.iEx < K → s.ex.dec = C.seqDec (C.seqRun a₀ T.iEx)
  exRead1 : T.ex = true → s.ex.v1 = s.regs (C.rs1 s.ex.dec)
  exRead2 : T.ex = true → s.ex.v2 = s.regs (C.rs2 s.ex.dec)
  exEmpty : T.ex = false → T.iEx ≤ K → C.InertDec s.ex.dec ∧ s.ex.pred = false
  midJump : T.mid = true → T.iMid < K →
    C.jump (C.seqDec (C.seqRun a₀ T.iMid)) = true → T.ex = false
  exJump : T.ex = true → T.iEx < K → C.jump s.ex.dec = true → T.iss = false
  issEmpty : T.iss = false → s.iss = C.issBubble
  issWord : T.iss = true →
    s.iss.instr = C.imem s.iss.pc ∧ s.iss.nextSeq = C.nextSeq s.iss.pc
  /-- Alone in front of the pipeline, the issue stage holds the next instruction. -/
  issAlone : T.ex = false → T.iss = true → T.iIss < K →
    s.iss.pc = (C.seqRun a₀ T.iIss).pc
  /-- Behind another instruction it holds the one fetch believed to be next: it
  followed the prediction, unless that was made in the shadow of a branch. -/
  issBehind : T.ex = true → T.iss = true → T.iEx < K →
    s.iss.pc = if s.ex.pred && !T.shEx then s.ex.predPc else C.seqPc s.ex.dec
  fetchNext : T.iss = false → T.iIss ≤ K → s.pc = (C.seqRun a₀ T.iIss).pc
  fetchBehind : T.iss = true → T.iIss < K →
    s.pc = if s.iss.pred && !T.shIss then s.iss.predPc else s.iss.nextSeq
  shIss : T.shIss = true → T.iEx ≤ K →
    ∃ j < T.iEx, C.branch (C.seqDec (C.seqRun a₀ j)) = true
  shEx : T.shEx = true → T.iEx ≤ K →
    ∃ j < T.iEx, C.branch (C.seqDec (C.seqRun a₀ j)) = true
  shadowWb : T.wb = true → T.n < K →
    s.shadow.wb = ((C.seqRun a₀ T.n).pc, C.imem (C.seqRun a₀ T.n).pc)
  shadowMid : T.mid = true → T.iMid < K →
    s.shadow.mid = ((C.seqRun a₀ T.iMid).pc, C.imem (C.seqRun a₀ T.iMid).pc)
  shadowEx : T.ex = true → T.iEx < K →
    s.shadow.ex = ((C.seqRun a₀ T.iEx).pc, C.imem (C.seqRun a₀ T.iEx).pc)
  shadowIss : T.iss = true → s.shadow.iss = (s.iss.pc, s.iss.instr)

end Invariant

/-! ## Hazards that the pipeline does not resolve -/

section Hazards

variable (s : State W R D M Mem P)

/-- Whatever is about to write `r` is seen by the forwarding paths; what the memory
stage forwards hides the write-back stage. -/
def Bypassed (r : R) : Prop :=
  r ≠ C.zeroReg →
    ((C.finish s.mid s.mem).wrEn = true → C.rd s.mid = r → C.fwdEn s.mid = true) ∧
    (C.fwdMid s r = false → s.wb.wrEn = true → s.wb.rd = r → s.wb.fwdEn = true)

/-- The first port is not needed, or delivers what is about to be written. -/
def NoHazard1 : Prop :=
  C.Ignores1 s.ex.dec ∨ (C.Bypassed s (C.rs1 s.ex.dec) ∧
    (C.fwdMid s (C.rs1 s.ex.dec) = true →
      C.fwdVal1 s.mid s.mem = (C.finish s.mid s.mem).data))

/-- The second port is not needed, or delivers what is about to be written. -/
def NoHazard2 : Prop :=
  C.Ignores2 s.ex.dec ∨ (C.Bypassed s (C.rs2 s.ex.dec) ∧
    (C.fwdMid s (C.rs2 s.ex.dec) = true →
      C.fwdVal2 s.mid = (C.finish s.mid s.mem).data))

/-- A branch whose taken prediction is confirmed has been followed by fetch. -/
def NoShadow (T : Track) : Prop :=
  T.shEx = true → C.exTaken s = true → C.exCorr s = true →
    C.brnTarget s.ex.dec = C.seqPc s.ex.dec

/-- The conditions under which one clock keeps the invariant. -/
structure Clean (K : Nat) (T : Track) : Prop where
  hazard1 : T.ex = true → T.iEx < K → C.NoHazard1 s
  hazard2 : T.ex = true → T.iEx < K → C.NoHazard2 s
  shadow : T.ex = true → T.iEx < K → C.NoShadow s T

end Hazards

end Core

end SimpleCpu.Pipeline
