import SimpleCpu.RiscV.Refinement

/-!
# Three classes of RISC-V programs

Straight computation with jumps (`computational_retires`), conditional branches under
prediction (`branches_retire`) and loads (`loads_retire`).  The last two hold outside
one corner each, and a program in the corner shows that they fail there.
-/

namespace SimpleCpu.RiscV

open SimpleCpu.Iss SimpleCpu.Pipeline SimpleCpu.Rtl SimpleCpu.RiscV.Isa SimpleCpu.RiscV.Iss

/-! ## Conditions of the general theorem, class by class -/

section Classes

variable {imem : Word → Word} {s : Top} {sim : Sim} {p : Instr → Bool} {K : Nat}

/-- Without loads the two forwarding muxes agree. -/
theorem loadForwarded_of_no_load (hb : Boots imem s sim)
    (hx : ∀ i < K, Executes p (cycles sim i)) (hlock : ∀ i ≤ K, Lockstep imem s sim i)
    (hp : ∀ rd rs1 imm, p (.lw rd rs1 imm) = false) : LoadForwarded imem K s := by
  intro t hinv _ hK
  refine Or.inr ?_
  intro hf hlw
  obtain ⟨i, rs1, imm, -, -, -, hlwp, -⟩ := load_in_mid hb hx hlock hinv hK hf hlw
  simp [hp] at hlwp

/-- An executed branch is a branch of the class. -/
theorem branch_of_executed (hb : Boots imem s sim)
    (hx : ∀ i < K, Executes p (cycles sim i)) (hlock : ∀ i ≤ K, Lockstep imem s sim i)
    {i : Nat} (hi : i < K)
    (hbr : (core imem).branch ((core imem).seqDec ((core imem).seqRun s.arch i)) = true) :
    ∃ f rs1 rs2 imm, p (.b f rs1 rs2 imm) = true := by
  obtain ⟨x, -, henc, hp⟩ := (hlock i (by omega)).encodes hb (hx i hi)
  have hx' : x.isBranch = true := (seqDec_issues henc).isBType.symm.trans hbr
  cases x with
  | b f rs1 rs2 imm => exact ⟨f, rs1, rs2, imm, hp⟩
  | r | i | lw | lui | auipc | jal => simp [Instr.isBranch] at hx'

/-- Without branches nothing casts a shadow. -/
theorem shadowFree_of_no_branch (hb : Boots imem s sim)
    (hx : ∀ i < K, Executes p (cycles sim i)) (hlock : ∀ i ≤ K, Lockstep imem s sim i)
    (hp : ∀ f rs1 rs2 imm, p (.b f rs1 rs2 imm) = false) : ShadowFree imem K s := by
  intro t hupto _ hK hsh _ _
  obtain ⟨j, hj, hbr⟩ := (hupto t (Nat.le_refl t)).shEx hsh (by omega)
  obtain ⟨f, rs1, rs2, imm, hbp⟩ := branch_of_executed hb hx hlock (by omega) hbr
  simp [hp] at hbp

end Classes

/-! ## Computation and jumps -/

/-- Programs of register and immediate operations, `LUI`, `AUIPC` and `JAL` are retired
as the simulator executes them, whatever the branch predictor holds. -/
theorem computational_retires {imem : Word → Word} {s : Top} {sim : Sim}
    (hb : Boots imem s sim) {k : Nat}
    (hx : ∀ i ≤ k, Executes Instr.isComputational (cycles sim i)) :
    ∃ t, Retirement imem s sim k t := by
  have hx' : ∀ i < k + 1, Executes Instr.isComputational (cycles sim i) :=
    fun i hi => hx i (by omega)
  have hno : ∀ x : Instr, x.isComputational = true → ∀ rd rs1 imm, x ≠ .lw rd rs1 imm := by
    rintro x hxp rd rs1 imm rfl
    simp [Instr.isComputational] at hxp
  have hlock : ∀ i ≤ k + 1, Lockstep imem s sim i := fun i hi =>
    hb.lockstep (fun j hj => hx' j (by omega)) (Or.inr hno)
  obtain ⟨t, -, -, ht⟩ := hb.retirement hx' hlock
    (loadForwarded_of_no_load hb hx' hlock fun _ _ _ => rfl)
    (shadowFree_of_no_branch hb hx' hlock fun _ _ _ _ => rfl) (Nat.lt_succ_self k)
  exact ⟨t + 2, ht⟩

/-- `LUI x1, 1`, then `ADD x2, x2, x1` and `JAL x3, -4` for ever. -/
def addLoop : Word → Word := fun i =>
  if i = 0 then 0x000010B7 else if i = 1 then 0x00110133
  else if i = 2 then 0xFFDFF1EF else 0

theorem computational_retires_addLoop :
    ∃ t, Retirement addLoop (Top.cleared fun _ => 0)
      (bootSim addLoop (Top.cleared fun _ => 0)) 4 t :=
  computational_retires (boots_cleared addLoop fun _ => 0) fun i hi => by
    interval_cases i <;> exact executes_of_check (by decide +kernel)

/-! ## Branches and prediction -/

/-- A branch in the execute stage at clock `t`, and two clocks later another one whose
taken prediction is confirmed.  That prediction was recorded at clock `t`, when fetch
did not follow it. -/
def ShadowedBranch (imem : Word → Word) (s : Top) (t : Nat) : Prop :=
  (s.run imem t).ex.isBType = true ∧ (s.run imem (t + 2)).branchTaken = true ∧
    (s.run imem (t + 2)).brnCorrPred = true ∧
    (s.run imem (t + 2)).ex.nextBrnPc ≠ (s.run imem (t + 2)).ex.nextSeqPc

instance (imem : Word → Word) (s : Top) (t : Nat) : Decidable (ShadowedBranch imem s t) :=
  inferInstanceAs (Decidable (_ ∧ _ ∧ _ ∧ _))

theorem shadowFree_of_not_shadowedBranch {imem : Word → Word} {s : Top} {k : Nat}
    (h : ∀ t, Nat.count (fun u => (s.run imem u).wb.instrRetired = true) (t + 2) ≤ k →
      ¬ ShadowedBranch imem s t) : ShadowFree imem (k + 1) s := by
  intro t hupto _ hK hsh htaken hcorr
  by_contra hne
  cases t with
  | zero => simp [Track.empty] at hsh
  | succ t =>
      cases t with
      | zero => simp [Track.empty, Core.stepTrack] at hsh
      | succ t =>
          rw [Core.track_shEx, ← abs_run] at hsh
          refine h t ?_ ⟨hsh, htaken, hcorr, hne⟩
          have hinv : ∀ u ≤ t + 2, (core imem).Inv (k + 1) s.arch
              ((core imem).track s.abs u) ((core imem).run s.abs u) := by
            simpa only [abs_run] using hupto
          have hK' : ((core imem).track s.abs (t + 2)).iEx < k + 1 := hK
          have hn : ((core imem).track s.abs (t + 2)).n ≤ k := by
            unfold Track.iEx Track.iMid at hK'
            omega
          have hcount := Core.count_valid (t + 2) hinv (by omega)
          simp only [← abs_run] at hcount
          exact (hcount.trans_le (Nat.count_le _)).trans hn

/-- Programs with conditional branches are retired as the simulator executes them,
whatever the predictor has learnt, as long as no shadowed branch occurs. -/
theorem branches_retire {imem : Word → Word} {s : Top} {sim : Sim}
    (hb : Boots imem s sim) {k : Nat}
    (hx : ∀ i ≤ k, Executes Instr.isControlFlow (cycles sim i))
    (hshadow : ∀ t,
      Nat.count (fun u => (s.run imem u).wb.instrRetired = true) (t + 2) ≤ k →
        ¬ ShadowedBranch imem s t) :
    ∃ t, Retirement imem s sim k t := by
  have hx' : ∀ i < k + 1, Executes Instr.isControlFlow (cycles sim i) :=
    fun i hi => hx i (by omega)
  have hno : ∀ x : Instr, x.isControlFlow = true → ∀ rd rs1 imm, x ≠ .lw rd rs1 imm := by
    rintro x hxp rd rs1 imm rfl
    simp [Instr.isControlFlow] at hxp
  have hlock : ∀ i ≤ k + 1, Lockstep imem s sim i := fun i hi =>
    hb.lockstep (fun j hj => hx' j (by omega)) (Or.inr hno)
  obtain ⟨t, -, -, ht⟩ := hb.retirement hx' hlock
    (loadForwarded_of_no_load hb hx' hlock fun _ _ _ => rfl)
    (shadowFree_of_not_shadowedBranch hshadow) (Nat.lt_succ_self k)
  exact ⟨t + 2, ht⟩

/-- A branch that is never taken, one instruction, and a branch back that always is:
`BNE x0, x0, 8`, `ADDI x0, x0, 0`, `BEQ x0, x0, -8`; more instructions follow. -/
def shadowLoop : Word → Word := fun i =>
  if i = 0 then 0x00001463 else if i = 2 then 0xFE000CE3 else 0x00000013

/-- The simulator's view of the loop before its first cycle. -/
def shadowLoopSim : Sim := bootSim shadowLoop (Top.cleared fun _ => 0)

/-- The simulator goes round the loop for ever. -/
theorem shadowLoop_cycles (i : Nat) :
    (cycles shadowLoopSim i).next = (cycles shadowLoopSim i).current ∧
      (cycles shadowLoopSim i).mem = shadowLoopSim.mem ∧
      (cycles shadowLoopSim i).current.regs = (fun _ => 0) ∧
      (cycles shadowLoopSim i).current.pc = 0x2000 + BitVec.ofNat 32 (4 * (i % 3)) := by
  induction i with
  | zero => exact ⟨rfl, rfl, rfl, rfl⟩
  | succ i ih =>
      obtain ⟨hnext, hmem, hregs, hpc⟩ := ih
      have hread : (cycles shadowLoopSim i).memRead = shadowLoopSim.memRead := by
        unfold Sim.memRead
        rw [hmem]
      have hzero : (cycles shadowLoopSim i).current.regs 0 = 0 := by rw [hregs]
      have hround : i % 3 = 0 ∧ (i + 1) % 3 = 1 ∨ i % 3 = 1 ∧ (i + 1) % 3 = 2 ∨
          i % 3 = 2 ∧ (i + 1) % 3 = 0 := by omega
      rcases hround with ⟨h, h'⟩ | ⟨h, h'⟩ | ⟨h, h'⟩
      · have hcycle := cycle_eq (x := .b .bne 0 0 4) hnext hzero (by
          rw [hread, hpc, h]
          decide +kernel)
        rw [cycles, hcycle, h']
        refine ⟨rfl, hmem, hregs, ?_⟩
        simp [Sim.follow, Instr.nextPc, hpc, h, hregs, BrnFun.eval]
      · have hcycle := cycle_eq (x := .i .add 0 0 0) hnext hzero (by
          rw [hread, hpc, h]
          decide +kernel)
        rw [cycles, hcycle, h']
        refine ⟨rfl, hmem, hregs, ?_⟩
        simp [Sim.follow, Instr.nextPc, hpc, h]
      · have hcycle := cycle_eq (x := .b .beq 0 0 0xFFC) hnext hzero (by
          rw [hread, hpc, h]
          decide +kernel)
        rw [cycles, hcycle, h']
        refine ⟨rfl, hmem, hregs, ?_⟩
        simp [Sim.follow, Instr.nextPc, hpc, h, hregs, BrnFun.eval]

theorem shadowLoop_executes (i : Nat) :
    Executes Instr.isControlFlow (cycles shadowLoopSim i) := by
  obtain ⟨-, hmem, -, hpc⟩ := shadowLoop_cycles i
  have hread : (cycles shadowLoopSim i).memRead = shadowLoopSim.memRead := by
    unfold Sim.memRead
    rw [hmem]
  have hround : i % 3 = 0 ∨ i % 3 = 1 ∨ i % 3 = 2 := by omega
  refine executes_of_check ?_
  rcases hround with h | h | h <;>
    rw [hread, hpc, h] <;>
    decide +kernel

/-- The first round of the loop, and a little more. -/
theorem branches_retire_shadowLoop :
    ∃ t, Retirement shadowLoop (Top.cleared fun _ => 0) shadowLoopSim 4 t := by
  refine branches_retire (boots_cleared _ _) (fun i _ => shadowLoop_executes i) ?_
  intro t ht
  have hlt : t < 9 := by
    by_contra hge
    have hmono := Nat.count_monotone
      (fun u => (Top.run shadowLoop (Top.cleared fun _ => 0) u).wb.instrRetired = true)
      (show 11 ≤ t + 2 by omega)
    have hcount : Nat.count
        (fun u => (Top.run shadowLoop (Top.cleared fun _ => 0) u).wb.instrRetired = true)
        11 = 5 := by decide +kernel
    omega
  interval_cases t <;> decide +kernel

/-- Some programs with branches retire an instruction the simulator never reaches. -/
theorem shadowed_branch_retires_wrong_path :
    ¬ ∀ (imem : Word → Word) (s : Top) (sim : Sim), Boots imem s sim →
      (∀ i, s.bpred.bpred i = 0) → (∀ i, s.bpred.btb i = 0) →
      (∀ i, Executes Instr.isControlFlow (cycles sim i)) →
      ∀ k, ∃ t, RetiresAt imem s k t ∧
        (s.run imem t).tb.pcWb = (cycles sim k).current.pc := by
  intro hall
  obtain ⟨t, ht, hpc⟩ := hall shadowLoop (Top.cleared fun _ => 0) shadowLoopSim
    (boots_cleared _ _) (fun _ => rfl) (fun _ => rfl) shadowLoop_executes 12
  have hwrong : RetiresAt shadowLoop (Top.cleared fun _ => 0) 12 22 :=
    ⟨by decide +kernel, by decide +kernel⟩
  obtain rfl := ht.unique hwrong
  rw [(shadowLoop_cycles 12).2.2.2] at hpc
  exact absurd hpc (by decide +kernel)

/-! ## Loads -/

/-- The register an instruction reads through the first port. -/
def Isa.Instr.reads1 : Instr → Option (BitVec 5)
  | .r _ _ rs1 _ | .i _ _ rs1 _ | .lw _ rs1 _ | .b _ rs1 _ _ => some rs1
  | _ => none

/-- The register an instruction reads through the second port. -/
def Isa.Instr.reads2 : Instr → Option (BitVec 5)
  | .r _ _ _ rs2 | .b _ _ rs2 _ => some rs2
  | _ => none

/-- At clock `t` the `k`-th instruction is in the execute stage, and its operands are
the simulator's registers. -/
structure OperandsRead (imem : Word → Word) (s : Top) (sim : Sim) (k t : Nat) : Prop where
  pc : (s.run imem t).tb.pcEx = (cycles sim k).current.pc
  port1 : ∀ x, decodeInstr ((cycles sim k).memRead (cycles sim k).current.pc) = some x →
    ∀ r ∈ x.reads1, (s.run imem t).rDataP1 = (cycles sim k).current.regs r
  port2 : ∀ x, decodeInstr ((cycles sim k).memRead (cycles sim k).current.pc) = some x →
    ∀ r ∈ x.reads2, (s.run imem t).rDataP2 = (cycles sim k).current.regs r

/-- If the `i`-th instruction loads a register and the next one reads it through the
second port, the loaded word is its own address. -/
def LoadUseSafe (sim : Sim) (i : Nat) : Prop :=
  ∀ rd rs1 imm, rd ≠ 0 →
    decodeInstr ((cycles sim i).memRead (cycles sim i).current.pc) = some (.lw rd rs1 imm) →
    (∃ x, decodeInstr ((cycles sim (i + 1)).memRead (cycles sim (i + 1)).current.pc) =
      some x ∧ rd ∈ x.reads2) →
    sim.memRead ((cycles sim i).current.regs rs1 + imm.signExtend 32) =
      (cycles sim i).current.regs rs1 + imm.signExtend 32

theorem Isa.Encodes.reads1_eq {w : Word} {x : Instr} (h : Encodes w x) {r : BitVec 5}
    (hr : r ∈ x.reads1) : r = rs1 w := by
  cases h <;> simp [Instr.reads1] at hr <;> exact hr.symm

theorem Isa.Encodes.reads2_eq {w : Word} {x : Instr} (h : Encodes w x) {r : BitVec 5}
    (hr : r ∈ x.reads2) : r = rs2 w := by
  cases h <;> simp [Instr.reads2] at hr <;> exact hr.symm

section Loads

variable {imem : Word → Word} {s : Top} {sim : Sim} {p : Instr → Bool} {K : Nat}

/-- A program with loads, from the start of both machines. -/
structure LoadRun (imem : Word → Word) (s : Top) (sim : Sim) (K : Nat) : Prop where
  boots : Boots imem s sim
  sameData : SameData s sim
  executes : ∀ i < K, Executes Instr.isLoadCode (cycles sim i)
  inData : ∀ i < K, LoadsInData (cycles sim i)
  useSafe : ∀ i, i + 1 < K → LoadUseSafe sim i

namespace LoadRun

variable (h : LoadRun imem s sim K)

include h

theorem lockstep (i : Nat) (hi : i ≤ K) : Lockstep imem s sim i :=
  h.boots.lockstep (fun j hj => h.executes j (by omega))
    (Or.inl ⟨fun j hj => h.inData j (by omega), h.sameData⟩)

/-- The second mux is right for an instruction whose use of a load is safe. -/
theorem forwarded {t : Nat}
    (hinv : (core imem).Inv K s.arch ((core imem).track s.abs t) (s.run imem t).abs)
    (hK : ((core imem).track s.abs t).iEx < K) {x : Instr} {r : BitVec 5}
    (hdec : decodeInstr ((cycles sim ((core imem).track s.abs t).iEx).memRead
      (cycles sim ((core imem).track s.abs t).iEx).current.pc) = some x)
    (hr : r ∈ x.reads2)
    (hf : (core imem).fwdMid (s.run imem t).abs r = true)
    (hlw : (s.run imem t).mem.isLw = true) :
    dataMemRead (s.run imem t).dmem (s.run imem t).mem.aluRes =
      (s.run imem t).mem.aluRes := by
  obtain ⟨i, rs1, imm, hiEx, hr0, hload, -, haddr⟩ :=
    load_in_mid h.boots h.executes h.lockstep hinv hK hf hlw
  rw [hiEx] at hdec hK
  obtain ⟨haligned, hlt⟩ := h.inData i (by omega) r rs1 imm hload
  have hsafe := h.useSafe i hK r rs1 imm hr0 hload ⟨x, hdec, hr⟩
  have hmidK : ((core imem).track s.abs t).iMid ≤ K := by
    unfold Track.iEx at hiEx
    omega
  have hdmem : (s.run imem t).dmem = s.dmem := by
    have hmem := hinv.mem hmidK
    rw [(h.lockstep _ hmidK).seq] at hmem
    exact hmem
  rw [haddr, hdmem, ← h.sameData _ haligned hlt, hsafe]

theorem loadForwarded : LoadForwarded imem K s := by
  intro t hinv hex hK
  obtain ⟨x, hdec, henc, hp⟩ := (h.lockstep _ (by omega)).encodes h.boots (h.executes _ hK)
  have hdecEx : (s.run imem t).ex.toIssueOut = _ := hinv.exFull hex hK
  cases x with
  | r f rd rs1 rs2 =>
      have hrs2 : (s.run imem t).ex.rs2 = rs2 :=
        (congrArg IssueOut.rs2 hdecEx).trans (henc.reads2_eq rfl).symm
      refine Or.inr ?_
      rw [hrs2]
      exact h.forwarded hinv hK hdec rfl
  | i | lw | lui =>
      rw [hdecEx]
      exact Or.inl ((seqDec_issues henc).ignores2 henc nofun rfl)
  | b | auipc | jal => simp [Instr.isLoadCode] at hp

theorem shadowFree : ShadowFree imem K s :=
  shadowFree_of_no_branch h.boots h.executes h.lockstep fun _ _ _ _ => rfl

/-- The operands of an instruction in the execute stage. -/
theorem operandsRead {t : Nat} (hex : ((core imem).track s.abs t).ex = true) {k : Nat}
    (hiEx : ((core imem).track s.abs t).iEx = k) (hk : k < K) :
    OperandsRead imem s sim k t := by
  have hrun := h.boots.runHyps h.executes h.lockstep h.loadForwarded h.shadowFree
  have hfw := executed_forwards h.boots h.executes h.lockstep
  have hinv := hrun.inv t
  rw [← abs_run] at hinv
  have hK : ((core imem).track s.abs t).iEx < K := by omega
  have hseq := (h.lockstep k (by omega)).seq
  have hregs : ((core imem).seqRun s.arch k).regs = (cycles sim k).current.regs := by
    rw [hseq]
  have hdecEx : (s.run imem t).ex.toIssueOut = _ := hinv.exFull hex hK
  obtain ⟨y, hy, henc, -⟩ :=
    (h.lockstep k (by omega)).encodes h.boots (h.executes k hk)
  refine ⟨?_, ?_, ?_⟩
  · have htb := congrArg Prod.fst (hinv.shadowEx hex hK)
    rw [hiEx, hseq] at htb
    exact htb
  · intro x hdec r hr
    obtain rfl : y = x := Option.some.inj (hy.symm.trans hdec)
    have hop := hinv.op1_eq lawful (hrun.stepHyps t).zeroReg hex hK (bypassed _ _)
      (hinv.fwdVal1_eq hfw hex hK)
    rw [op1_abs, hiEx, hregs] at hop
    have hrs1 : (s.run imem t).ex.rs1 = r := by
      rw [henc.reads1_eq hr, ← hiEx]
      exact congrArg IssueOut.rs1 hdecEx
    rw [← hrs1]
    exact hop
  · intro x hdec r hr
    obtain rfl : y = x := Option.some.inj (hy.symm.trans hdec)
    have hrs2 : (s.run imem t).ex.rs2 = r := by
      rw [henc.reads2_eq hr, ← hiEx]
      exact congrArg IssueOut.rs2 hdecEx
    have hload : (core imem).fwdMid (s.run imem t).abs (s.run imem t).ex.rs2 = true →
        (core imem).fwdVal2 (s.run imem t).abs.mid =
          ((core imem).finish (s.run imem t).abs.mid (s.run imem t).abs.mem).data := by
      intro hf
      rw [← hinv.fwdVal1_eq hfw hex hK hf]
      rw [hrs2] at hf
      refine fwdVal2_eq (h.forwarded hinv hK ?_ hr hf)
      rw [hiEx]
      exact hdec
    have hop := hinv.op2_eq lawful (hrun.stepHyps t).zeroReg hex hK (bypassed _ _) hload
    rw [op2_abs, hiEx, hregs] at hop
    rw [← hrs2]
    exact hop

end LoadRun

end Loads

/-- Straight-line programs with loads read the right operands and are retired as the
simulator executes them, as long as no unsafe use of a load occurs. -/
theorem loads_retire {imem : Word → Word} {s : Top} {sim : Sim} (hb : Boots imem s sim)
    (hsame : SameData s sim) {k : Nat}
    (hx : ∀ i ≤ k, Executes Instr.isLoadCode (cycles sim i))
    (hin : ∀ i ≤ k, LoadsInData (cycles sim i)) (huse : ∀ i < k, LoadUseSafe sim i) :
    ∃ t, OperandsRead imem s sim k t ∧ Retirement imem s sim k (t + 2) := by
  have hrun : LoadRun imem s sim (k + 1) :=
    { boots := hb
      sameData := hsame
      executes := fun i hi => hx i (by omega)
      inData := fun i hi => hin i (by omega)
      useSafe := fun i hi => huse i (by omega) }
  obtain ⟨t, hex, hiEx, ht⟩ := hb.retirement hrun.executes hrun.lockstep
    hrun.loadForwarded hrun.shadowFree (Nat.lt_succ_self k)
  exact ⟨t, hrun.operandsRead hex hiEx (Nat.lt_succ_self k), ht⟩

/-- `LoadsInData` by evaluation. -/
theorem loadsInData_of_check {sim : Sim}
    (h : (match decodeInstr (sim.memRead sim.current.pc) with
      | some (.lw _ rs1 imm) =>
          (sim.current.regs rs1 + imm.signExtend 32) &&& 3 == 0 &&
            decide (sim.current.regs rs1 + imm.signExtend 32 < 0x1FFF)
      | _ => true) = true) : LoadsInData sim := by
  intro rd rs1 imm hdec
  rw [hdec] at h
  simpa only [Bool.and_eq_true, beq_iff_eq, decide_eq_true_eq] using h

/-- The word at address 0 is 5. -/
def fiveAtZero : Word → Word := fun i => if i = 0 then 5 else 0

/-- `LW x1, 0(x0)`, `ADDI x2, x1, 1`, `ADD x3, x2, x1`. -/
def loadUse1 : Word → Word := fun i =>
  if i = 0 then 0x00002083 else if i = 1 then 0x00108113
  else if i = 2 then 0x001101B3 else 0

theorem loads_retire_loadUse1 :
    ∃ t, OperandsRead loadUse1 (Top.cleared fiveAtZero)
        (bootSim loadUse1 (Top.cleared fiveAtZero)) 2 t ∧
      Retirement loadUse1 (Top.cleared fiveAtZero)
        (bootSim loadUse1 (Top.cleared fiveAtZero)) 2 (t + 2) := by
  refine loads_retire (boots_cleared _ _) sameData_bootSim ?_ ?_ ?_
  · intro i hi
    interval_cases i <;> exact executes_of_check (by decide +kernel)
  · intro i hi
    interval_cases i <;> exact loadsInData_of_check (by decide +kernel)
  · intro i hi rd rs1 imm _ hload huse
    obtain ⟨x, hx, hr⟩ := huse
    interval_cases i
    · obtain rfl : Instr.i .add 2 1 1 = x := Option.some.inj
        (Eq.trans (by decide +kernel) hx)
      simp [Instr.reads2] at hr
    · have hadd : some (Instr.i .add 2 1 1) = some (.lw rd rs1 imm) :=
        Eq.trans (by decide +kernel) hload
      simp at hadd

/-- `LW x1, 0(x0)`, `ADD x2, x0, x1`. -/
def loadUse2 : Word → Word := fun i =>
  if i = 0 then 0x00002083 else if i = 1 then 0x00100133 else 0

/-- A load followed by a use through the second port can write a wrong register. -/
theorem load_use_writes_address :
    ¬ ∀ (imem : Word → Word) (s : Top) (sim : Sim), Boots imem s sim → SameData s sim →
      ∀ k, (∀ i ≤ k, Executes Instr.isLoadCode (cycles sim i)) →
        (∀ i ≤ k, LoadsInData (cycles sim i)) →
        ∃ t, RetiresAt imem s k t ∧
          (s.run imem t).regFileNext = (cycles sim (k + 1)).current.regs := by
  intro hall
  obtain ⟨t, ht, hregs⟩ := hall loadUse2 (Top.cleared fiveAtZero)
    (bootSim loadUse2 (Top.cleared fiveAtZero)) (boots_cleared _ _) sameData_bootSim 1
    (fun i hi => by interval_cases i <;> exact executes_of_check (by decide +kernel))
    (fun i hi => by interval_cases i <;> exact loadsInData_of_check (by decide +kernel))
  have hfixed : RetiresAt loadUse2 (Top.cleared fiveAtZero) 1 5 :=
    ⟨by decide +kernel, by decide +kernel⟩
  obtain rfl := ht.unique hfixed
  exact absurd (congrFun hregs 2) (by decide +kernel)

end SimpleCpu.RiscV
