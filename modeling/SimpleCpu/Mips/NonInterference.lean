import SimpleCpu.Pipeline.TwoRuns
import SimpleCpu.Mips.Refinement

/-!
# The branch predictor and what is retired

Two runs of the MIPS pipeline that differ only in the contents of the predictor's
tables.  They retire the same instructions with the same results as long as two corners
are avoided (`retires_same`): an operand that no forwarding path brings up to date, and
a confirmed prediction that was recorded in the shadow of another branch.  A program in
the second corner tells two predictors apart.
-/

namespace SimpleCpu.Mips

open SimpleCpu.Rtl SimpleCpu.Pipeline SimpleCpu.Mips.Isa

/-! ## What is retired -/

/-- The register the instruction in the write-back stage writes, and the value. -/
def WbPipeReg.written (w : WbPipeReg) : Option (BitVec 5 × Word) :=
  if w.regWr || w.useLinkReg then some (w.rd, w.wrData) else none

/-- The `k`-th retired instruction has this address and word and writes this. -/
def Retires (imem : Word → Word) (s : Top) (k : Nat) (pc word : Word)
    (written : Option (BitVec 5 × Word)) : Prop :=
  ∃ t, RetiresAt imem s k t ∧ (s.run imem t).tb.pcWb = pc ∧
    (s.run imem t).tb.instrWb = word ∧ (s.run imem t).wb.written = written

/-! ## Operands that are not brought up to date -/

/-- The instruction uses its first operand. -/
def IssueOut.uses1 (d : IssueOut) : Bool := d.regWr || d.memWr || d.branch

/-- The instruction uses its second operand. -/
def IssueOut.uses2 (d : IssueOut) : Bool :=
  d.memWr || (d.aluSrc == 0 && (d.regWr || d.branch))

namespace Top

variable (s : Top)

/-- The memory stage holds a link address for `r`, or a word that the port does not take
from the memory.  A port takes loaded words when `loads` is set. -/
def staleMem (loads : Bool) (r : BitVec 5) : Bool :=
  s.mem.rd == r && (s.mem.useLinkReg || (s.mem.regWr && s.mem.memToReg != loads))

/-- The write-back stage holds a link address for `r` that is not forwarded. -/
def staleWb (r : BitVec 5) : Bool :=
  s.wb.rd == r && (s.wb.useLinkReg && !s.wb.regWr) && !(s.mem.regWr && s.mem.rd == r)

def stale (loads : Bool) (r : BitVec 5) : Bool :=
  r != 0 && (s.staleMem loads r || s.staleWb r)

/-- The execute stage uses a register that is about to change and is not forwarded. -/
def staleOperand : Bool :=
  (s.ex.uses1 && s.stale s.mem.isLw s.ex.rs) || (s.ex.uses2 && s.stale false s.ex.rt)

end Top

/-- A branch in the execute stage at clock `t`, and two clocks later another one whose
taken prediction is confirmed.  That prediction was recorded at clock `t`, when fetch
did not follow it. -/
def ShadowedBranch (imem : Word → Word) (s : Top) (t : Nat) : Prop :=
  (s.run imem t).ex.branch = true ∧ (s.run imem (t + 2)).branchTaken = true ∧
    (s.run imem (t + 2)).brnCorrPred = true ∧
    (s.run imem (t + 2)).ex.nextBrnEqPc ≠ (s.run imem (t + 2)).ex.nextSeqPc

instance (imem : Word → Word) (s : Top) (t : Nat) : Decidable (ShadowedBranch imem s t) :=
  inferInstanceAs (Decidable (_ ∧ _ ∧ _ ∧ _))

/-- How many instructions are retired before clock `t`. -/
def retiredBefore (imem : Word → Word) (s : Top) (t : Nat) : Nat :=
  Nat.count (fun u => (s.run imem u).wb.instrRetired = true) t

/-- Neither corner is met before the `k`-th instruction is retired. -/
structure SafeUpTo (imem : Word → Word) (s : Top) (k : Nat) : Prop where
  operands : ∀ t, retiredBefore imem s t ≤ k → (s.run imem t).staleOperand = false
  branches : ∀ t, retiredBefore imem s (t + 2) ≤ k → ¬ ShadowedBranch imem s t

section Conditions

variable {imem : Word → Word} {s : Top}

/-- Less of a safe run is safe. -/
theorem SafeUpTo.mono {k k' : Nat} (h : SafeUpTo imem s k) (hk : k' ≤ k) : SafeUpTo imem s k' where
  operands u hu := h.operands u (hu.trans hk)
  branches u hu := h.branches u (hu.trans hk)

theorem bypassed_of_not_stale {loads : Bool} {r : BitVec 5} (h : s.stale loads r = false) :
    (core imem).Bypassed s.abs r := by
  intro hr
  have hr' : (r != 0) = true := bne_iff_ne.mpr hr
  rw [Top.stale, hr', Bool.true_and, Bool.or_eq_false_iff] at h
  obtain ⟨hmem, hwb⟩ := h
  constructor
  · intro hw hrd
    have hw' : (s.mem.regWr || s.mem.useLinkReg) = true := hw
    have hrd' : s.mem.rd = r := hrd
    show s.mem.regWr = true
    simp only [Top.staleMem, hrd', beq_self_eq_true, Bool.true_and,
      Bool.or_eq_false_iff] at hmem
    rwa [hmem.1, Bool.or_false] at hw'
  · intro hno hw hrd
    have hw' : (s.wb.regWr || s.wb.useLinkReg) = true := hw
    have hrd' : s.wb.rd = r := hrd
    show s.wb.regWr = true
    have hno' : (s.mem.regWr && s.mem.rd == r) = false := by
      have hmid : (s.mem.regWr && s.mem.rd != 0 && s.mem.rd == r) = false := hno
      cases hmr : s.mem.rd == r with
      | false => rw [Bool.and_false]
      | true =>
          rw [beq_iff_eq] at hmr
          rw [hmr, hr'] at hmid
          simpa using hmid
    rw [Top.staleWb, hno', hrd'] at hwb
    cases hreg : s.wb.regWr with
    | true => rfl
    | false =>
        rw [hreg, Bool.false_or] at hw'
        simp [hw', hreg] at hwb

/-- What the memory stage forwards is what it will write. -/
theorem forwarded_of_not_stale {loads : Bool} {r : BitVec 5} (h : s.stale loads r = false)
    (hf : (core imem).fwdMid s.abs r = true) :
    (if loads then dataMemRead s.dmem s.mem.resAlu else s.mem.resAlu) =
      (s.mem.toWb s.dmem).abs.data := by
  have hf' : (s.mem.regWr && s.mem.rd != 0 && s.mem.rd == r) = true := hf
  simp only [Bool.and_eq_true, bne_iff_ne, beq_iff_eq] at hf'
  obtain ⟨⟨hreg, hrd0⟩, hrd⟩ := hf'
  have hr' : (r != 0) = true := by simpa [← hrd] using hrd0
  rw [Top.stale, hr', Bool.true_and, Bool.or_eq_false_iff] at h
  have hmem := h.1
  simp only [Top.staleMem, hrd, hreg, beq_self_eq_true, Bool.true_and, Bool.or_eq_false_iff,
    bne_eq_false_iff_eq] at hmem
  obtain ⟨hlink, hload⟩ := hmem
  show _ = if s.mem.regWr || s.mem.useLinkReg then
    wrDataRf s.mem.useLinkReg s.mem.nextSeqPc s.mem.rd s.mem.memToReg
      (dataMemRead s.dmem s.mem.resAlu) s.mem.resAlu else 0
  rw [hreg, hlink, hload, wrDataRf, if_pos hrd0]
  rfl

/-- What the memory stage forwards is not masked. -/
theorem masked_resAlu {m : MemPipeReg} (h : m.regWr = true) : m.masked.resAlu = m.resAlu := by
  simp [MemPipeReg.masked, h]

theorem noHazard1 (h : s.staleOperand = false) : (core imem).NoHazard1 s.abs := by
  rw [Top.staleOperand, Bool.or_eq_false_iff] at h
  cases huse : s.ex.uses1 with
  | false => exact Or.inl (ignores1 huse)
  | true =>
      have hst : s.stale s.mem.isLw s.ex.rs = false := by simpa [huse] using h.1
      refine Or.inr ⟨bypassed_of_not_stale hst, fun hf => ?_⟩
      have hreg : s.mem.regWr = true := by
        have hf' : (s.mem.regWr && s.mem.rd != 0 && s.mem.rd == s.ex.rs) = true := hf
        simp only [Bool.and_eq_true] at hf'
        exact hf'.1.1
      show (if s.mem.isLw then dataMemRead s.dmem s.mem.masked.resAlu
        else s.mem.masked.resAlu) = (s.mem.masked.toWb s.dmem).abs.data
      rw [toWb_masked, masked_resAlu hreg]
      exact forwarded_of_not_stale hst hf

theorem noHazard2 (h : s.staleOperand = false) : (core imem).NoHazard2 s.abs := by
  rw [Top.staleOperand, Bool.or_eq_false_iff] at h
  cases huse : s.ex.uses2 with
  | false =>
      rw [IssueOut.uses2, Bool.or_eq_false_iff] at huse
      refine Or.inl (ignores2 huse.1 fun hsrc => ?_)
      have hsrc' : s.ex.aluSrc = 0 := hsrc
      have hout : s.ex.regWr = false ∧ s.ex.branch = false := by simpa [hsrc'] using huse.2
      exact hout
  | true =>
      have hst : s.stale false s.ex.rt = false := by simpa [huse] using h.2
      refine Or.inr ⟨bypassed_of_not_stale hst, fun hf => ?_⟩
      have hreg : s.mem.regWr = true := by
        have hf' : (s.mem.regWr && s.mem.rd != 0 && s.mem.rd == s.ex.rt) = true := hf
        simp only [Bool.and_eq_true] at hf'
        exact hf'.1.1
      show s.mem.masked.resAlu = (s.mem.masked.toWb s.dmem).abs.data
      rw [toWb_masked, masked_resAlu hreg]
      exact forwarded_of_not_stale hst hf

/-- A safe run is a clean run of the general pipeline. -/
theorem SafeUpTo.cleanRun {k : Nat} (h : SafeUpTo imem s k) (hreset : s.IsReset)
    (hzero : s.regFile 0 = 0) : (core imem).CleanRun k s.arch s.abs where
  lawful := lawful
  regular i := seqDec_regular
  zeroReg := hzero
  reset := hreset.atReset
  clean K t hcount hinv := by
    have hcount' : ∀ u, (core imem).retiredBefore s.abs u = retiredBefore imem s u := by
      intro u
      unfold Core.retiredBefore retiredBefore
      simp only [← abs_run]
      rfl
    rw [hcount'] at hcount
    have hop := h.operands t hcount
    rw [← abs_run]
    refine ⟨fun _ _ => noHazard1 hop, fun _ _ => noHazard2 hop, ?_⟩
    intro _ _ hsh htaken hcorr
    rw [exTaken_abs] at htaken
    rw [exCorr_abs] at hcorr
    by_contra hne
    cases t with
    | zero => simp [Track.empty] at hsh
    | succ t =>
        cases t with
        | zero => simp [Track.empty, Core.stepTrack] at hsh
        | succ t =>
            rw [Core.track_shEx, ← abs_run] at hsh
            exact h.branches t hcount ⟨hsh, htaken, hcorr, hne⟩

/-- What the write-back register of the general pipeline says about the write. -/
theorem written_abs (w : WbPipeReg) :
    w.written = if w.abs.wrEn then some (w.abs.rd, w.abs.data) else none := by
  unfold WbPipeReg.written
  show _ = if w.regWr || w.useLinkReg then
    some (w.rd, if w.regWr || w.useLinkReg then w.wrData else 0) else none
  split <;> rfl

/-- What one of two safe runs retires, the other one retires as well. -/
theorem Retires.of_safe {s' : Top} (hreset : s.IsReset) (hreset' : s'.IsReset)
    (hregs : s.regFile = s'.regFile) (hdmem : s.dmem = s'.dmem) (hzero : s.regFile 0 = 0)
    {k : Nat} (hsafe : SafeUpTo imem s k) (hsafe' : SafeUpTo imem s' k) {pc word : Word}
    {written : Option (BitVec 5 × Word)} (h : Retires imem s k pc word written) :
    Retires imem s' k pc word written := by
  obtain ⟨t, ⟨hv, hk⟩, rfl, rfl, rfl⟩ := h
  have harch : s'.arch = s.arch := by
    show Arch.mk s'.currPc s'.regFile s'.dmem = Arch.mk s.currPc s.regFile s.dmem
    rw [hreset.currPc, hreset'.currPc, hregs, hdmem]
  have hclean := hsafe.cleanRun hreset hzero
  have hclean' := hsafe'.cleanRun hreset' (by rw [← hregs, hzero])
  rw [harch] at hclean'
  have hv' : ((core imem).run s.abs t).wb.valid = true := by
    rw [← abs_run]
    exact hv
  have hk' : (core imem).retiredBefore s.abs t = k := by
    unfold Core.retiredBefore
    simp only [← abs_run]
    exact hk
  obtain ⟨t', hcount, hwb, hsh⟩ := hclean.retired_same hclean' hv' hk'
  unfold Core.retiredBefore at hcount
  simp only [← abs_run] at hcount hwb hsh
  refine ⟨t', ⟨?_, hcount⟩, ?_, ?_, ?_⟩
  · exact (congrArg WriteBack.valid hwb).trans hv
  · exact congrArg Prod.fst hsh
  · exact congrArg Prod.snd hsh
  · rw [written_abs, written_abs]
    exact congrArg (fun w : WriteBack Word (BitVec 5) =>
      if w.wrEn then some (w.rd, w.data) else none) hwb

end Conditions

/-- From the same registers and memory the pipeline retires the same instructions with
the same results whatever the predictor holds, in runs that are safe so far. -/
theorem retires_same {imem : Word → Word} {s₁ s₂ : Top} (h₁ : s₁.IsReset) (h₂ : s₂.IsReset)
    (hregs : s₁.regFile = s₂.regFile) (hdmem : s₁.dmem = s₂.dmem) (hzero : s₁.regFile 0 = 0)
    {k : Nat} (hsafe₁ : SafeUpTo imem s₁ k) (hsafe₂ : SafeUpTo imem s₂ k) (pc word : Word)
    (written : Option (BitVec 5 × Word)) :
    Retires imem s₁ k pc word written ↔ Retires imem s₂ k pc word written := by
  constructor
  · exact Retires.of_safe h₁ h₂ hregs hdmem hzero hsafe₁ hsafe₂
  · exact Retires.of_safe h₂ h₁ hregs.symm hdmem.symm (by rw [← hregs, hzero]) hsafe₂ hsafe₁

/-! ## Fixed runs -/

/-- `SafeUpTo` by evaluation of the clocks until the next instruction is retired. -/
theorem safeUpTo_of_check {imem : Word → Word} {s : Top} {k n : Nat}
    (hn : k < retiredBefore imem s n)
    (h : ∀ t < n, (s.run imem t).staleOperand = false ∧ ¬ ShadowedBranch imem s t) :
    SafeUpTo imem s k := by
  have hlt : ∀ t, retiredBefore imem s t ≤ k → t < n := fun t ht => by
    by_contra hge
    have hmono : retiredBefore imem s n ≤ retiredBefore imem s t :=
      Nat.count_monotone _ (by omega)
    omega
  constructor
  · intro t ht
    exact (h t (hlt t ht)).1
  · intro t ht
    have := hlt (t + 2) ht
    exact (h t (by omega)).2

/-- A branch that is never taken, one instruction, and a branch over two others that
always is: `BNE r0, r0, 1`, `ADDI r0, r0, 0`, `BEQ r0, r0, 2`, `ADDI r1, r0, 1`, `J 0`,
`ADDI r1, r0, 2` and `J 0`. -/
def shadowLoop : Word → Word := fun i =>
  if i = 0 then 0x14000001 else if i = 1 then 0x20000000 else if i = 2 then 0x10000002
  else if i = 3 then 0x20010001 else if i = 5 then 0x20010002 else 0x08000000

/-- A predictor that takes everything for a branch to address 12. -/
def Top.misled : Top :=
  { Top.cleared (fun _ => 0) with bpred := { bpred := fun _ => 0b11, btb := fun _ => 12 } }

/-- A predictor that knows the branch at address 8. -/
def Top.trained : Top :=
  { Top.cleared (fun _ => 0) with
    bpred := { bpred := fun i => if i = 8 then 0b11 else 0
               btb := fun i => if i = 8 then 20 else 0 } }

theorem retires_same_shadowLoop :
    Retires shadowLoop (Top.cleared fun _ => 0) 3 20 0x20010002 (some (1, 2)) ↔
      Retires shadowLoop Top.misled 3 20 0x20010002 (some (1, 2)) := by
  have hsafe : SafeUpTo shadowLoop (Top.cleared fun _ => 0) 3 :=
    safeUpTo_of_check (n := 10) (by decide +kernel) (by decide +kernel)
  have hsafe' : SafeUpTo shadowLoop Top.misled 3 :=
    safeUpTo_of_check (n := 14) (by decide +kernel) (by decide +kernel)
  have hreset : (Top.cleared fun _ => 0).IsReset := ⟨rfl, rfl, rfl, rfl, rfl⟩
  have hreset' : Top.misled.IsReset := ⟨rfl, rfl, rfl, rfl, rfl⟩
  exact retires_same hreset hreset' rfl rfl rfl hsafe hsafe' 20 0x20010002 (some (1, 2))

/-- The instructions that leave data memory alone. -/
def Isa.Instr.leavesMemory : Instr → Bool
  | .lw .. | .sw .. => false
  | _ => true

/-- For some programs of computation, branches and jumps the predictor decides what is
retired. -/
theorem predictor_changes_retired :
    ¬ ∀ (imem : Word → Word) (s₁ s₂ : Top),
      (∀ i, ∃ x, decodeInstr (imem i) = some x ∧ x.leavesMemory = true) →
      s₁.IsReset → s₂.IsReset → s₁.regFile = s₂.regFile → s₁.dmem = s₂.dmem →
      s₁.regFile 0 = 0 → ∀ k pc word written,
        Retires imem s₁ k pc word written ↔ Retires imem s₂ k pc word written := by
  intro hall
  have hprog : ∀ i, ∃ x, decodeInstr (shadowLoop i) = some x ∧ x.leavesMemory = true := by
    have hsome : ∀ w : Word, ((decodeInstr w).map Instr.leavesMemory) = some true →
        ∃ x, decodeInstr w = some x ∧ x.leavesMemory = true := fun w h =>
      Option.map_eq_some_iff.mp h
    intro i
    refine hsome _ ?_
    unfold shadowLoop
    repeat' split
    all_goals decide
  have hboth := hall shadowLoop (Top.cleared fun _ => 0) Top.trained hprog
    ⟨rfl, rfl, rfl, rfl, rfl⟩ ⟨rfl, rfl, rfl, rfl, rfl⟩ rfl rfl rfl 3 20 0x20010002
    (some (1, 2))
  obtain ⟨t, ht, hpc, -⟩ := hboth.mp
    ⟨9, ⟨by decide +kernel, by decide +kernel⟩, by decide +kernel, by decide +kernel,
      by decide +kernel⟩
  have hwrong : RetiresAt shadowLoop Top.trained 3 7 :=
    ⟨by decide +kernel, by decide +kernel⟩
  obtain rfl := ht.unique hwrong
  exact absurd hpc (by decide +kernel)

end SimpleCpu.Mips
