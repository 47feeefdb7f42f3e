import SimpleCpu.RiscV.Lockstep

/-!
# The RISC-V pipeline retires what the simulator executes

`Retirement` is what the testbench sees of one retired instruction, against the
simulator.  `Boots.retirement` derives it for every instruction of a program from two
conditions on the clocks of the run: the second forwarding mux delivers what the
instruction in the memory stage will write, and no confirmed prediction was recorded
in the shadow of a branch.
-/

namespace SimpleCpu.RiscV

open SimpleCpu.Iss SimpleCpu.Pipeline SimpleCpu.Rtl SimpleCpu.RiscV.Isa SimpleCpu.RiscV.Iss

/-- At clock `t` the pipeline retires its `k`-th instruction, counted from zero. -/
structure RetiresAt (imem : Word → Word) (s : Top) (k t : Nat) : Prop where
  retired : (s.run imem t).wb.instrRetired = true
  count : Nat.count (fun u => (s.run imem u).wb.instrRetired = true) t = k

/-- A retired instruction is retired once. -/
theorem RetiresAt.unique {imem : Word → Word} {s : Top} {k t t' : Nat}
    (h : RetiresAt imem s k t) (h' : RetiresAt imem s k t') : t = t' :=
  Nat.count_injective h.retired h'.retired (h.count.trans h'.count.symm)

/-- What is retired at clock `t` is what the simulator executes in its `k`-th cycle,
with the same effect on the registers. -/
structure Retirement (imem : Word → Word) (s : Top) (sim : Sim) (k t : Nat) : Prop
    extends RetiresAt imem s k t where
  pc : (s.run imem t).tb.pcWb = (cycles sim k).current.pc
  instr : (s.run imem t).tb.instrWb = (cycles sim k).memRead (cycles sim k).current.pc
  regs : (s.run imem t).regFileNext = (cycles sim (k + 1)).current.regs

section Conditions

variable {imem : Word → Word} {s : Top} {sim : Sim} {p : Instr → Bool} {K : Nat}

theorem Boots.atReset (h : Boots imem s sim) : (core imem).AtReset s.arch s.abs where
  pc := rfl
  regs := rfl
  mem := rfl
  iss := by
    show s.iss.abs = _
    rw [h.reset.iss]
    rfl
  exDec := by
    show (core imem).InertDec s.ex.toIssueOut
    rw [h.reset.ex]
    exact inertDec rfl rfl rfl rfl rfl
  exPred := by
    show s.ex.brnPred = false
    rw [h.reset.ex]
  mid := by
    show (core imem).InertMid s.mem.masked
    rw [h.reset.mem]
    exact { fwdEn := fun _ => rfl, store := fun _ => rfl, finish := fun _ => ⟨rfl, nofun⟩ }
  wb := by
    show (core imem).InertWb s.wb.abs
    rw [h.reset.wb]
    exact ⟨rfl, nofun⟩
  wbFwd h := h

/-- In this pipeline whatever is written back is also forwarded. -/
theorem bypassed (s : Top) (r : BitVec 5) : (core imem).Bypassed s.abs r :=
  fun _ => ⟨fun hw _ => hw, fun _ hw _ => hw⟩

/-- The two muxes differ for loads alone. -/
theorem fwdVal2_eq {s : Top}
    (h : s.mem.isLw = true → dataMemRead s.dmem s.mem.aluRes = s.mem.aluRes) :
    (core imem).fwdVal2 s.abs.mid = (core imem).fwdVal1 s.abs.mid s.abs.mem := by
  show s.mem.aluRes = if s.mem.isLw then dataMemRead s.dmem s.mem.aluRes else s.mem.aluRes
  cases hlw : s.mem.isLw with
  | false => rfl
  | true => exact (h hlw).symm

/-- The second operand matters to register operations and branches only. -/
theorem Issues.ignores2 {x : Instr} {iss : IssPipeReg} {d : IssueOut} (h : Issues x iss d)
    (hx : Encodes iss.instr x) (hr : ∀ f rd rs1 rs2, x ≠ .r f rd rs1 rs2)
    (hb : x.isBranch = false) : (core imem).Ignores2 d := by
  intro v1 v2 v2'
  constructor
  · have halu : d.alu v1 v2 = d.alu v1 v2' := by
      unfold IssueOut.alu IssueOut.aluOp2
      rw [h.op2Sel]
      cases x with
      | r f rd rs1 rs2 => exact absurd rfl (hr f rd rs1 rs2)
      | b => simp [Instr.isBranch] at hb
      | i | lw | lui | auipc | jal => simp [Instr.controls]
    have hwr : d.memWr = false := by
      rw [h.memWr]
      cases x <;> rfl
    show (d.toMem v1 v2).masked = (d.toMem v1 v2').masked
    simp [IssueOut.toMem, MemPipeReg.masked, halu, hwr]
  · show d.branchTaken (d.alu v1 v2) = d.branchTaken (d.alu v1 v2')
    rw [h.taken hx, h.taken hx]
    cases x <;> simp [Instr.isBranch] at hb ⊢

/-- The second mux forwards what the first would. -/
def LoadForwarded (imem : Word → Word) (K : Nat) (s : Top) : Prop :=
  ∀ t, (core imem).Inv K s.arch ((core imem).track s.abs t) (s.run imem t).abs →
    ((core imem).track s.abs t).ex = true → ((core imem).track s.abs t).iEx < K →
    (core imem).Ignores2 (s.run imem t).ex.toIssueOut ∨
      ((core imem).fwdMid (s.run imem t).abs (s.run imem t).ex.rs2 = true →
        (s.run imem t).mem.isLw = true →
          dataMemRead (s.run imem t).dmem (s.run imem t).mem.aluRes =
            (s.run imem t).mem.aluRes)

/-- No confirmed prediction was recorded in the shadow of a branch. -/
def ShadowFree (imem : Word → Word) (K : Nat) (s : Top) : Prop :=
  ∀ t, (∀ u ≤ t, (core imem).Inv K s.arch ((core imem).track s.abs u)
      (s.run imem u).abs) →
    ((core imem).track s.abs t).ex = true → ((core imem).track s.abs t).iEx < K →
    ((core imem).track s.abs t).shEx = true → (s.run imem t).branchTaken = true →
      (s.run imem t).brnCorrPred = true →
        (s.run imem t).ex.nextBrnPc = (s.run imem t).ex.nextSeqPc

theorem executed_forwards (hb : Boots imem s sim)
    (hx : ∀ i < K, Executes p (cycles sim i))
    (hlock : ∀ i ≤ K, Lockstep imem s sim i) (i : Nat) (hi : i < K) :
    (core imem).Forwards ((core imem).seqDec ((core imem).seqRun s.arch i)) := by
  obtain ⟨x, -, henc, -⟩ := (hlock i (by omega)).encodes hb (hx i hi)
  exact seqDec_forwards henc

theorem Boots.runHyps (hb : Boots imem s sim)
    (hx : ∀ i < K, Executes p (cycles sim i))
    (hlock : ∀ i ≤ K, Lockstep imem s sim i)
    (hload : LoadForwarded imem K s) (hshadow : ShadowFree imem K s) :
    Core.RunHyps (core imem) K s.arch s.abs where
  lawful := lawful
  regular i hi := by
    obtain ⟨x, -, henc, -⟩ := (hlock i (by omega)).encodes hb (hx i hi)
    exact seqDec_regular henc
  zeroReg := hb.zero
  reset := hb.atReset
  clean t hupto := by
    simp only [← abs_run] at hupto ⊢
    have hinv := hupto t (Nat.le_refl t)
    refine ⟨?_, ?_, ?_⟩
    · intro hex hK
      exact Or.inr ⟨bypassed _ _, hinv.fwdVal1_eq (executed_forwards hb hx hlock) hex hK⟩
    · intro hex hK
      rcases hload t hinv hex hK with hign | hfwd
      · exact Or.inl hign
      · refine Or.inr ⟨bypassed _ _, fun hf => ?_⟩
        rw [fwdVal2_eq (hfwd hf)]
        exact hinv.fwdVal1_eq (executed_forwards hb hx hlock) hex hK hf
    · intro hex hK hsh htaken hcorr
      rw [exTaken_abs] at htaken
      rw [exCorr_abs] at hcorr
      exact hshadow t hupto hex hK hsh htaken hcorr

/-- Every instruction of a program is retired, in order and with its result. -/
theorem Boots.retirement (hb : Boots imem s sim)
    (hx : ∀ i < K, Executes p (cycles sim i))
    (hlock : ∀ i ≤ K, Lockstep imem s sim i)
    (hload : LoadForwarded imem K s) (hshadow : ShadowFree imem K s) {k : Nat}
    (hk : k < K) :
    ∃ t, ((core imem).track s.abs t).ex = true ∧ ((core imem).track s.abs t).iEx = k ∧
      Retirement imem s sim k (t + 2) := by
  have hrun := hb.runHyps hx hlock hload hshadow
  obtain ⟨t, hex, hiEx, hwb, htb, hregs, -, hcount⟩ := hrun.retires k hk
  rw [← abs_run] at hwb htb hregs
  have hvalid : ∀ j ≤ k, ((core imem).seqWb ((core imem).seqRun s.arch j)).valid = true := by
    intro j hj
    obtain ⟨x, -, henc, -⟩ := (hlock j (by omega)).encodes hb (hx j (by omega))
    exact seqWb_valid henc
  have hpc : (s.run imem (t + 2)).tb.pcWb = ((core imem).seqRun s.arch k).pc :=
    congrArg Prod.fst htb
  have hword : (s.run imem (t + 2)).tb.instrWb =
      instrMemRead imem ((core imem).seqRun s.arch k).pc := congrArg Prod.snd htb
  have hlast : (s.run imem (t + 2)).regFileNext =
      ((core imem).seqRun s.arch (k + 1)).regs := hregs
  refine ⟨t, hex, hiEx, ⟨?_, ?_⟩, ?_, ?_, ?_⟩
  · have := congrArg WriteBack.valid hwb
    rw [hvalid k (by omega)] at this
    exact this
  · have hall : Nat.count
        (fun j => ((core imem).seqWb ((core imem).seqRun s.arch j)).valid = true) k = k :=
      Nat.count_iff_forall.mpr fun j hj => hvalid j (by omega)
    rw [hall] at hcount
    simp only [← abs_run] at hcount
    exact hcount
  · rw [hpc, (hlock k (by omega)).seq]
  · rw [hword, (hlock k (by omega)).word_eq hb (hx k hk)]
  · rw [hlast, (hlock (k + 1) (by omega)).seq]

/-! ## Loads in the memory stage -/

/-- A load in front of an instruction that depends on it. -/
theorem load_in_mid (hb : Boots imem s sim) (hx : ∀ i < K, Executes p (cycles sim i))
    (hlock : ∀ i ≤ K, Lockstep imem s sim i) {t : Nat}
    (hinv : (core imem).Inv K s.arch ((core imem).track s.abs t) (s.run imem t).abs)
    (hK : ((core imem).track s.abs t).iEx < K) {r : BitVec 5}
    (hf : (core imem).fwdMid (s.run imem t).abs r = true)
    (hlw : (s.run imem t).mem.isLw = true) :
    ∃ i rs1 imm, ((core imem).track s.abs t).iEx = i + 1 ∧ r ≠ 0 ∧
      decodeInstr ((cycles sim i).memRead (cycles sim i).current.pc) =
        some (.lw r rs1 imm) ∧ p (.lw r rs1 imm) = true ∧
      (s.run imem t).mem.aluRes = (cycles sim i).current.regs rs1 + imm.signExtend 32 := by
  have hmidK : ((core imem).track s.abs t).iMid ≤ K := by
    unfold Track.iEx at hK
    omega
  have hT := hinv.mid_of_fwdMid hmidK hf
  have hiEx : ((core imem).track s.abs t).iEx = ((core imem).track s.abs t).iMid + 1 := by
    simp [Track.iEx, hT]
  have hmid := hinv.midFull hT (by omega)
  generalize ((core imem).track s.abs t).iMid = i at *
  simp only [Core.fwdMid, Bool.and_eq_true, bne_iff_ne, beq_iff_eq] at hf
  obtain ⟨⟨-, hrd0⟩, hrd⟩ := hf
  have hrd' : (s.run imem t).mem.rd = r := hrd
  have hr0 : r ≠ 0 := by
    rw [← hrd]
    exact hrd0
  obtain ⟨x, hdec, henc, hp⟩ := (hlock i (by omega)).encodes hb (hx i (by omega))
  have hiss := seqDec_issues henc
  have hisLw : (s.run imem t).mem.isLw =
      (opcode (instrMemRead imem ((core imem).seqRun s.arch i).pc) == 0x03) :=
    (congrArg MemPipeReg.isLw hmid).trans hiss.isLw
  have hmrd : (s.run imem t).mem.rd = ((core imem).seqDec ((core imem).seqRun s.arch i)).rd :=
    congrArg MemPipeReg.rd hmid
  have hres : (s.run imem t).mem.aluRes =
      ((core imem).seqMid ((core imem).seqRun s.arch i)).aluRes := by
    have hcopy := congrArg MemPipeReg.aluRes hmid
    exact hcopy
  rw [hisLw, beq_iff_eq] at hlw
  cases henc with
  | lw hop hf3 =>
      have halu := hiss.alu_res rfl
        (((core imem).seqRun s.arch i).regs
          ((core imem).rs1 ((core imem).seqDec ((core imem).seqRun s.arch i))))
        (((core imem).seqRun s.arch i).regs
          ((core imem).rs2 ((core imem).seqDec ((core imem).seqRun s.arch i))))
      rw [hiss.rd, hrd'] at hmrd
      rw [← hmrd] at hdec hp
      refine ⟨i, _, _, hiEx, hr0, hdec, hp, ?_⟩
      rw [hres]
      refine halu.trans ?_
      have hregs : ((core imem).seqRun s.arch i).regs = (cycles sim i).current.regs := by
        rw [(hlock i (by omega)).seq]
      rw [hregs]
      rfl
  | r hop | i hop | b hop | lui hop | auipc hop | jal hop =>
      rw [hop] at hlw
      exact absurd hlw (by decide)

end Conditions

/-! ## Fixed runs -/

theorem boots_cleared (imem dmem : Word → Word) :
    Boots imem (Top.cleared dmem) (bootSim imem (Top.cleared dmem)) :=
  boots_bootSim ⟨rfl, rfl, rfl, rfl, rfl⟩ rfl

/-- `Executes` by evaluation. -/
theorem executes_of_check {p : Instr → Bool} {sim : Sim}
    (h : (sim.current.pc &&& 3 == 0 && decide (0x2000 ≤ sim.current.pc) &&
      decide (sim.current.pc < 0x3FFC) &&
      ((decodeInstr (sim.memRead sim.current.pc)).map p).getD false) = true) :
    Executes p sim := by
  simp only [Bool.and_eq_true, beq_iff_eq, decide_eq_true_eq] at h
  obtain ⟨⟨⟨haligned, hlow⟩, hhigh⟩, hdec⟩ := h
  refine ⟨haligned, hlow, hhigh, ?_⟩
  cases hx : decodeInstr (sim.memRead sim.current.pc) with
  | none => simp [hx] at hdec
  | some x => exact ⟨x, rfl, by simpa [hx] using hdec⟩

end SimpleCpu.RiscV
