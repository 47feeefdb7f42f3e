import SimpleCpu.Pipeline.Static
import SimpleCpu.RiscV.Programs

/-!
# Programs the RISC-V pipeline retires

Computation, loads, branches and jumps together.  `program_retires`: whatever the branch
predictor holds, the pipeline retires what the simulator executes, if two corners are
avoided that can be read off the words and addresses of the simulator:

* a loaded word is taken through the second port right behind the load, and is not its own
  address (`LoadUseSafe`);
* a branch leaves the sequence two instructions behind another one (`ShadowedJump`).
-/

namespace SimpleCpu.RiscV

open SimpleCpu.Iss SimpleCpu.Pipeline SimpleCpu.Rtl SimpleCpu.RiscV.Isa SimpleCpu.RiscV.Iss

/-! ## The conditions -/

/-- The word that the simulator executes in its `i`-th cycle. -/
def wordAt (sim : Sim) (i : Nat) : Word := (cycles sim i).memRead (cycles sim i).current.pc

def Isa.IsBranch (w : Word) : Prop := ∃ x ∈ decodeInstr w, x.isBranch = true

/-- A branch that leaves the sequence two instructions behind another one. -/
def ShadowedJump (sim : Sim) (i : Nat) : Prop :=
  IsBranch (wordAt sim i) ∧ IsBranch (wordAt sim (i + 2)) ∧
    (cycles sim (i + 3)).current.pc ≠ (cycles sim (i + 2)).current.pc + 4

instance (w : Word) : Decidable (IsBranch w) :=
  inferInstanceAs (Decidable (∃ x ∈ decodeInstr w, x.isBranch = true))

instance (sim : Sim) (i : Nat) : Decidable (ShadowedJump sim i) :=
  inferInstanceAs (Decidable (_ ∧ _ ∧ _))

/-- All instructions that both machines implement. -/
def Isa.Instr.isAny (_ : Instr) : Bool := true

/-- The first cycles of the simulator, up to the `k`-th, suit the pipeline. -/
structure Suits (sim : Sim) (k : Nat) : Prop where
  executes : ∀ i ≤ k, Executes Instr.isAny (cycles sim i)
  inData : ∀ i ≤ k, LoadsInData (cycles sim i)
  loadUse : ∀ i < k, LoadUseSafe sim i
  shadow : ∀ i, i + 2 ≤ k → ¬ ShadowedJump sim i

/-! ## One instruction -/

section Instr

variable {imem : Word → Word} {a : Arch Word (BitVec 5) Dmem} {x : Instr}

/-- The two forwarding muxes differ for a loaded word that is not its own address. -/
theorem fwdVal2_seqMid (hx : Encodes (instrMemRead imem a.pc) x)
    (hload : ∀ rd rs1 imm, x = .lw rd rs1 imm →
      dataMemRead a.mem (a.regs rs1 + imm.signExtend 32) = a.regs rs1 + imm.signExtend 32) :
    (core imem).fwdVal2 ((core imem).seqMid a) =
      (core imem).fwdVal1 ((core imem).seqMid a) a.mem := by
  have hiss := seqDec_issues hx
  have hlw : ((core imem).seqMid a).isLw = (opcode (instrMemRead imem a.pc) == 0x03) :=
    hiss.isLw
  show ((core imem).seqMid a).aluRes =
    if ((core imem).seqMid a).isLw then dataMemRead a.mem ((core imem).seqMid a).aluRes
    else ((core imem).seqMid a).aluRes
  rw [hlw]
  cases hx with
  | lw hop =>
      have hres : ((core imem).seqMid a).aluRes =
          a.regs (rs1 (instrMemRead imem a.pc)) +
            (immI (instrMemRead imem a.pc)).signExtend 32 :=
        hiss.alu_res rfl _ _
      rw [hop, hres, hload _ _ _ rfl]
      rfl
  | r hop | i hop | b hop | lui hop | auipc hop | jal hop =>
      rw [hop]
      rfl

/-- The second operand of an instruction that does not read a second register. -/
theorem ignores2_of_reads2 (hx : Encodes (instrMemRead imem a.pc) x) (h : x.reads2 = none) :
    (core imem).Ignores2 ((core imem).seqDec a) := by
  refine (seqDec_issues hx).ignores2 hx (fun f rd rs1 rs2 hr => ?_) ?_
  · rw [hr] at h
    exact absurd h nofun
  · cases x with
    | b => exact absurd h nofun
    | r | i | lw | lui | auipc | jal => rfl

end Instr

/-! ## Runs of both machines -/

/-- A suitable program, from the start of both machines to its `k`-th instruction. -/
structure SuitedRun (imem : Word → Word) (s : Top) (sim : Sim) (k : Nat) : Prop where
  boots : Boots imem s sim
  sameData : SameData s sim
  suits : Suits sim k

namespace SuitedRun

variable {imem : Word → Word} {s : Top} {sim : Sim} {k : Nat} (h : SuitedRun imem s sim k)

include h

theorem lockstep (i : Nat) (hi : i ≤ k + 1) : Lockstep imem s sim i :=
  h.boots.lockstep (fun j hj => h.suits.executes j (by omega))
    (Or.inl ⟨fun j hj => h.suits.inData j (by omega), h.sameData⟩)

/-- The instruction that both machines execute in their `i`-th step. -/
theorem encodes (i : Nat) (hi : i ≤ k) : ∃ x, decodeInstr (wordAt sim i) = some x ∧
    Encodes (instrMemRead imem ((core imem).seqRun s.arch i).pc) x := by
  obtain ⟨x, hx, henc, -⟩ := (h.lockstep i (by omega)).encodes h.boots (h.suits.executes i hi)
  exact ⟨x, hx, henc⟩

theorem regs_eq (i : Nat) (hi : i ≤ k + 1) :
    ((core imem).seqRun s.arch i).regs = (cycles sim i).current.regs := by
  rw [(h.lockstep i hi).seq]

theorem pc_eq (i : Nat) (hi : i ≤ k + 1) :
    ((core imem).seqRun s.arch i).pc = (cycles sim i).current.pc := by
  rw [(h.lockstep i hi).seq]

/-- What is written back is forwarded, and through the first port with its value. -/
theorem served {fwdVal : MemPipeReg → Dmem → Word} {j : Nat} (hj : j ≤ k) {r : BitVec 5}
    (hr : r ≠ 0)
    (hval : ∀ i, i + 1 = j → ((core imem).seqWb ((core imem).seqRun s.arch i)).rd = r →
      fwdVal ((core imem).seqMid ((core imem).seqRun s.arch i))
          ((core imem).seqRun s.arch i).mem =
        (core imem).fwdVal1 ((core imem).seqMid ((core imem).seqRun s.arch i))
          ((core imem).seqRun s.arch i).mem) :
    (core imem).Served s.arch fwdVal j r where
  first i hi hwr hrd := by
    refine ⟨hwr, fun hjump => ?_⟩
    obtain ⟨x, -, henc⟩ := h.encodes i (by omega)
    rw [hval i hi hrd]
    exact seqDec_forwards henc hjump _ _ _ hwr fun h0 => hr (hrd.symm.trans h0)
  second _ _ hwr _ := Or.inl hwr

/-- A loaded word that is taken through the second port right behind the load is its own
address. -/
theorem loadUse {i : Nat} (hi : i < k) {x : Instr} (hx : decodeInstr (wordAt sim (i + 1)) = some x)
    {r : BitVec 5} (hr0 : r ≠ 0) (hr : r ∈ x.reads2)
    (hrd : ((core imem).seqWb ((core imem).seqRun s.arch i)).rd = r) :
    (core imem).fwdVal2 ((core imem).seqMid ((core imem).seqRun s.arch i)) =
      (core imem).fwdVal1 ((core imem).seqMid ((core imem).seqRun s.arch i))
        ((core imem).seqRun s.arch i).mem := by
  obtain ⟨y, hy, henc⟩ := h.encodes i (by omega)
  refine fwdVal2_seqMid henc fun rd rs1 imm hlw => ?_
  subst hlw
  have hrd' : rd = r := by
    rw [← hrd, seqWb_of_result henc rfl]
  subst hrd'
  have hsafe := h.suits.loadUse i hi rd rs1 imm hr0 hy ⟨x, hx, hr⟩
  obtain ⟨haligned, hlt⟩ := h.suits.inData i (by omega) rd rs1 imm hy
  have hmem : ((core imem).seqRun s.arch i).mem = s.dmem := by
    rw [(h.lockstep i (by omega)).seq]
  rw [hmem, h.regs_eq i (by omega), ← h.sameData _ haligned hlt]
  exact hsafe

theorem isBranch {i : Nat} (hi : i ≤ k)
    (hbr : (core imem).branch ((core imem).seqDec ((core imem).seqRun s.arch i)) = true) :
    ∃ x, decodeInstr (wordAt sim i) = some x ∧ x.isBranch = true ∧
      Encodes (instrMemRead imem ((core imem).seqRun s.arch i).pc) x := by
  obtain ⟨x, hx, henc⟩ := h.encodes i hi
  exact ⟨x, hx, (seqDec_issues henc).isBType.symm.trans hbr, henc⟩

/-- A branch that is taken two instructions behind another one leads to the next word. -/
theorem shadowFree {i : Nat} (hi : i + 2 ≤ k)
    (hbr : (core imem).branch ((core imem).seqDec ((core imem).seqRun s.arch i)) = true)
    (htaken : (core imem).seqTaken ((core imem).seqRun s.arch (i + 2)) = true) :
    (core imem).brnTarget ((core imem).seqDec ((core imem).seqRun s.arch (i + 2))) =
      (core imem).seqPc ((core imem).seqDec ((core imem).seqRun s.arch (i + 2))) := by
  obtain ⟨y, hy, hyb, -⟩ := h.isBranch (by omega) hbr
  obtain ⟨x, hx, hxb, henc⟩ := h.isBranch hi ((@lawful imem).taken_branch _ _ _ htaken)
  have hjump : (core imem).jump ((core imem).seqDec ((core imem).seqRun s.arch (i + 2))) =
      false := by
    refine (seqDec_issues henc).jump.trans ?_
    cases x with
    | b => rfl
    | r | i | lw | lui | auipc | jal => exact absurd hxb Bool.false_ne_true
  have hnext : (cycles sim (i + 3)).current.pc =
      (core imem).brnTarget ((core imem).seqDec ((core imem).seqRun s.arch (i + 2))) := by
    rw [← h.pc_eq (i + 3) (by omega)]
    show (core imem).seqPcNext _ = _
    unfold Core.seqPcNext
    rw [hjump, htaken]
    rfl
  have hseq : (core imem).seqPc ((core imem).seqDec ((core imem).seqRun s.arch (i + 2))) =
      (cycles sim (i + 2)).current.pc + 4 := by
    rw [← h.pc_eq (i + 2) (by omega)]
    exact adder_add _ _
  by_contra hne
  refine h.suits.shadow i hi ⟨⟨y, hy, hyb⟩, ⟨x, hx, hxb⟩, fun heq => hne ?_⟩
  rw [← hnext, heq, hseq]

theorem static : (core imem).Static s.arch (k + 1) where
  regular i hi := by
    obtain ⟨x, -, henc⟩ := h.encodes i (by omega)
    exact seqDec_regular henc
  port1 j hj := Or.inr fun hr => h.served (by omega) hr fun _ _ _ => rfl
  port2 j hj := by
    obtain ⟨x, hx, henc⟩ := h.encodes j (by omega)
    cases hreads : x.reads2 with
    | none => exact Or.inl (ignores2_of_reads2 henc hreads)
    | some r =>
        refine Or.inr fun hr => ?_
        rw [seqDec_rs2, ← henc.reads2_eq hreads] at hr ⊢
        refine h.served (by omega) hr fun i hi hrd => ?_
        subst hi
        exact h.loadUse (by omega) hx hr hreads hrd
  shadow i hi hbr htaken := h.shadowFree (by omega) hbr htaken

theorem runHyps : Core.RunHyps (core imem) (k + 1) s.arch s.abs :=
  h.static.runHyps lawful h.boots.zero h.boots.atReset

theorem valid (i : Nat) (hi : i ≤ k) :
    ((core imem).seqWb ((core imem).seqRun s.arch i)).valid = true := by
  obtain ⟨x, -, henc⟩ := h.encodes i hi
  exact seqWb_valid henc

theorem retirement {t : Nat} (hv : (s.run imem t).wb.instrRetired = true)
    (hk : Nat.count (fun u => (s.run imem u).wb.instrRetired = true) t ≤ k) :
    Retirement imem s sim (Nat.count (fun u => (s.run imem u).wb.instrRetired = true) t) t := by
  generalize hcount : Nat.count (fun u => (s.run imem u).wb.instrRetired = true) t = n at hk ⊢
  have hcount' : Nat.count (fun u => ((core imem).run s.abs u).wb.valid = true) t = n := by
    simp only [← abs_run]
    exact hcount
  have hv' : ((core imem).run s.abs t).wb.valid = true := by
    rw [← abs_run]
    exact hv
  obtain ⟨-, hsh, -, hregs, -⟩ := h.runHyps.retired (fun i hi => h.valid i (by omega)) hcount'
    (Nat.lt_succ_of_le hk) hv'
  rw [← abs_run] at hsh hregs
  have hlock := h.lockstep n (by omega)
  refine ⟨⟨hv, hcount⟩, ?_, ?_, ?_⟩
  · exact (congrArg Prod.fst hsh).trans (h.pc_eq n (by omega))
  · exact (congrArg Prod.snd hsh).trans (hlock.word_eq h.boots (h.suits.executes n hk)).symm
  · exact Eq.trans hregs (h.regs_eq (n + 1) (by omega))

theorem exists_retired : ∃ t, (s.run imem t).wb.instrRetired = true ∧
    Nat.count (fun u => (s.run imem u).wb.instrRetired = true) t = k := by
  obtain ⟨t, -, -, hwb, -, -, -, hcount⟩ := h.runHyps.retires k (Nat.lt_succ_self k)
  rw [Nat.count_iff_forall.mpr fun j hj => h.valid j (by omega)] at hcount
  simp only [← abs_run] at hwb hcount
  exact ⟨t + 2, (congrArg WriteBack.valid hwb).trans (h.valid k (Nat.le_refl k)), hcount⟩

end SuitedRun

end SimpleCpu.RiscV
