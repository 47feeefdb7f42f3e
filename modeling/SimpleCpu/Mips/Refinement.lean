import SimpleCpu.Mips.CoreCorrect
import SimpleCpu.Mips.Lockstep

/-!
# The MIPS pipeline retires what the simulator executes

`straight_retires`: programs without conditional branches are retired as the simulator
executes them, registers and data memory included, unless an instruction takes a word
through the second port that the instruction right before it loads.
-/

namespace SimpleCpu.Mips

open SimpleCpu.Rtl SimpleCpu.Pipeline SimpleCpu.Mips.Isa SimpleCpu.Mips.Iss

/-! ## Starting both machines -/

/-- The memories of the pipeline. -/
def pipelineLayout : MemLayout where
  imemSize := 2048
  textEnd := 0x1FFC
  dataSegBegin := 0x2000
  dmemLast := 0x100000#32 >>> 2
  begin_aligned := by decide
  text_below := by decide
  text_inside pc h := by
    have h' : pc.toNat < 0x1FFC := h
    show (instrMemIndex pc).toNat < 2048
    rw [instrMemIndex_eq, BitVec.toNat_ushiftRight, Nat.shiftRight_eq_div_pow]
    omega
  data_inside addr hlow hhigh := by
    have hlow' : 0x2000 ≤ addr.toNat := hlow
    have hhigh' : addr.toNat < 0x102000 := hhigh
    show (dataMemIndex 0x2000 addr).toNat ≤ 0x40000
    rw [dataMemIndex_toNat, BitVec.toNat_sub]
    simp
    omega

/-- What the programmer sees of `top`. -/
def Top.arch (s : Top) : Arch Word (BitVec 5) Dmem where
  pc := s.currPc
  regs := s.regFile
  mem := s.dmem

/-- `top` right after reset and the simulator before its first cycle, with the same
program, data and registers. -/
structure Boots (imem : Word → Word) (s : Top) (sim : Sim) : Prop where
  reset : s.IsReset
  start : Lockstep pipelineLayout imem s.arch sim

/-- At clock `t` the pipeline retires its `k`-th instruction, counted from zero. -/
structure RetiresAt (imem : Word → Word) (s : Top) (k t : Nat) : Prop where
  retired : (s.run imem t).wb.instrRetired = true
  count : Nat.count (fun u => (s.run imem u).wb.instrRetired = true) t = k

/-- A retired instruction is retired once. -/
theorem RetiresAt.unique {imem : Word → Word} {s : Top} {k t t' : Nat}
    (h : RetiresAt imem s k t) (h' : RetiresAt imem s k t') : t = t' :=
  Nat.count_injective h.retired h'.retired (h.count.trans h'.count.symm)

/-- What is retired at clock `t` is what the simulator executes in its `k`-th cycle,
with the same effect on the registers and the data memory. -/
structure Retirement (imem : Word → Word) (s : Top) (sim : Sim) (k t : Nat) : Prop
    extends RetiresAt imem s k t where
  pc : (s.run imem t).tb.pcWb = (cycles sim k).current.pc
  instr : (s.run imem t).tb.instrWb = (cycles sim k).memRead (cycles sim k).current.pc
  regs : (s.run imem t).regFileNext = (cycles sim (k + 1)).current.regs
  data : ∀ addr : Word, addr &&& 3 = 0 → 0x2000 ≤ addr → addr < dataEnd →
    dataMemRead (s.run imem t).dmem addr = (cycles sim (k + 1)).memRead addr

section Start

variable {imem : Word → Word} {s : Top}

theorem Top.IsReset.atReset (h : s.IsReset) : (core imem).AtReset s.arch s.abs where
  pc := rfl
  regs := rfl
  mem := rfl
  iss := by
    show s.iss.abs = _
    rw [h.iss]
    rfl
  exDec := by
    show (core imem).InertDec s.ex.toIssueOut
    rw [h.ex]
    exact inertDec rfl rfl rfl (fun _ => rfl) rfl rfl
  exPred := by
    show s.ex.brnPred = false
    rw [h.ex]
  mid := by
    show (core imem).InertMid s.mem.masked
    rw [h.mem]
    exact { fwdEn := fun _ => rfl, store := fun _ => rfl, finish := fun _ => ⟨rfl, nofun⟩ }
  wb := by
    show (core imem).InertWb s.wb.abs
    rw [h.wb]
    exact ⟨rfl, nofun⟩
  wbFwd hf := by
    have hf' : s.wb.regWr = true := hf
    show (s.wb.regWr || s.wb.useLinkReg) = true
    rw [hf', Bool.true_or]

/-- One instruction through the functions of the pipeline. -/
theorem seqStep_follows {a : Arch Word (BitVec 5) Dmem} {x : Instr}
    (hx : Encodes (instrMemRead imem a.pc) x) (h0 : a.regs 0 = 0) :
    Follows pipelineLayout x a ((core imem).seqStep a) where
  regs := seqStep_regs hx h0
  mem := seqStep_mem hx

end Start

/-! ## Programs without branches -/

/-- Everything but branches and the all-zero shift, which the decoder takes for no
instruction. -/
def Isa.Instr.isStraight : Instr → Bool
  | .b .. | .bz .. => false
  | x => x ≠ .sh .sll 0 0 0

/-- The register an instruction reads through the second port. -/
def Isa.Instr.reads2 : Instr → Option (BitVec 5)
  | .r _ _ _ rt | .sw rt _ _ | .b _ _ rt _ => some rt
  | _ => none

/-- The `i`-th instruction loads a register that the next one reads through the second
port. -/
def LoadUse (sim : Sim) (i : Nat) : Prop :=
  ∃ rt rs imm x, rt ≠ 0 ∧
    decodeInstr ((cycles sim i).memRead (cycles sim i).current.pc) = some (.lw rt rs imm) ∧
    decodeInstr ((cycles sim (i + 1)).memRead (cycles sim (i + 1)).current.pc) = some x ∧
    rt ∈ x.reads2

theorem Isa.Encodes.reads2_eq {w : Word} {x : Instr} (h : Encodes w x) {r : BitVec 5}
    (hr : r ∈ x.reads2) : r = rt w := by
  cases h <;> simp [Instr.reads2] at hr <;> exact hr.symm

section Straight

variable {imem : Word → Word} {s : Top} {sim : Sim} {k : Nat}

/-- A program without branches, from the start of both machines to its `k`-th
instruction. -/
structure StraightRun (imem : Word → Word) (s : Top) (sim : Sim) (k : Nat) : Prop where
  boots : Boots imem s sim
  executes : ∀ i ≤ k, ∃ x, Executes pipelineLayout Instr.isStraight (cycles sim i) x
  loadUse : ∀ i < k, ¬ LoadUse sim i

namespace StraightRun

variable (h : StraightRun imem s sim k)

include h

/-- The functions of the pipeline, one instruction at a time, keep up with the
simulator. -/
theorem lockstep (i : Nat) (hi : i ≤ k) :
    Lockstep pipelineLayout imem ((core imem).seqRun s.arch i) (cycles sim i) := by
  induction i with
  | zero => exact h.boots.start
  | succ i ih =>
      have hlock := ih (by omega)
      obtain ⟨x, hx⟩ := h.executes i (by omega)
      obtain ⟨y, hy⟩ := h.executes (i + 1) hi
      have henc := hlock.encodes hx
      have hzero : ((core imem).seqRun s.arch i).regs 0 = 0 := by
        rw [hlock.regs, hlock.zero]
      have hnext : (cycles sim (i + 1)).current.pc =
          x.nextPc ((core imem).seqRun s.arch i).pc ((core imem).seqRun s.arch i).regs := by
        rw [hlock.pc, hlock.regs, cycles, cycle_eq hlock.next hx.word]
        rfl
      have hbound : ∀ {i y}, Executes pipelineLayout Instr.isStraight (cycles sim i) y →
          (cycles sim i).current.pc.toNat < 2 ^ 26 := fun hx => by
        have hlt := hx.inText
        have hlt' : (cycles sim _).current.pc.toNat < 0x1FFC := hlt
        omega
      refine hlock.cycle hx (seqStep_follows henc hzero) (seqStep_pc henc fun _ => ⟨?_, ?_⟩)
      · rw [hlock.pc]
        exact hbound hx
      · rw [← hnext]
        exact hbound hy

/-- The instruction both machines execute in their `i`-th step. -/
theorem encodes (i : Nat) (hi : i ≤ k) :
    ∃ x, Executes pipelineLayout Instr.isStraight (cycles sim i) x ∧
      Encodes (instrMemRead imem ((core imem).seqRun s.arch i).pc) x := by
  obtain ⟨x, hx⟩ := h.executes i hi
  exact ⟨x, hx, (h.lockstep i hi).encodes hx⟩

theorem forwards (i : Nat) (hi : i < k + 1) :
    (core imem).Forwards ((core imem).seqDec ((core imem).seqRun s.arch i)) := by
  obtain ⟨x, -, henc⟩ := h.encodes i (by omega)
  exact (seqDec_issues henc).forwards

/-- Without linking branches, whatever is written back is also forwarded. -/
theorem written_forwarded (i : Nat) (hi : i < k + 1)
    (hw : ((core imem).seqWb ((core imem).seqRun s.arch i)).wrEn = true) :
    (core imem).fwdEn ((core imem).seqMid ((core imem).seqRun s.arch i)) = true := by
  obtain ⟨x, hx, henc⟩ := h.encodes i (by omega)
  have hiss := seqDec_issues henc
  have hw' : (((core imem).seqDec ((core imem).seqRun s.arch i)).regWr ||
      ((core imem).seqDec ((core imem).seqRun s.arch i)).useLinkReg) = true := hw
  show ((core imem).seqDec ((core imem).seqRun s.arch i)).regWr = true
  rw [hiss.regWr, hiss.useLinkReg] at hw'
  rw [hiss.regWr]
  have hc := hx.inClass
  cases x <;> simp [Instr.isStraight, Instr.links, Instr.controls] at hc hw' ⊢

theorem no_branch (i : Nat) (hi : i < k + 1) :
    (core imem).branch ((core imem).seqDec ((core imem).seqRun s.arch i)) = false := by
  obtain ⟨x, hx, henc⟩ := h.encodes i (by omega)
  refine (seqDec_issues henc).branch.trans ?_
  have hc := hx.inClass
  cases x <;> simp [Instr.isStraight, Instr.isBranch] at hc ⊢

/-- The second port delivers what the instruction ahead writes, unless it loads. -/
theorem fwdVal2_eq {t : Nat}
    (hinv : (core imem).Inv (k + 1) s.arch ((core imem).track s.abs t) (s.run imem t).abs)
    (hex : ((core imem).track s.abs t).ex = true)
    (hK : ((core imem).track s.abs t).iEx < k + 1) {x : Instr}
    (hx : Executes pipelineLayout Instr.isStraight
      (cycles sim ((core imem).track s.abs t).iEx) x)
    {r : BitVec 5} (hr : r ∈ x.reads2)
    (hf : (core imem).fwdMid (s.run imem t).abs r = true) :
    (core imem).fwdVal2 (s.run imem t).abs.mid =
      ((core imem).finish (s.run imem t).abs.mid (s.run imem t).abs.mem).data := by
  have hmidK : ((core imem).track s.abs t).iMid ≤ k + 1 := by
    unfold Track.iEx at hK
    omega
  have hT := hinv.mid_of_fwdMid hmidK hf
  have hiEx : ((core imem).track s.abs t).iEx = ((core imem).track s.abs t).iMid + 1 := by
    simp [Track.iEx, hT]
  have hmid := hinv.midFull hT (by omega)
  rw [← hinv.fwdVal1_eq h.forwards hex hK hf]
  rw [hiEx] at hx
  obtain ⟨y, hy, henc⟩ := h.encodes ((core imem).track s.abs t).iMid (by omega)
  have hiss := seqDec_issues henc
  have hlw : (s.run imem t).mem.isLw = y.controls.memToReg :=
    (congrArg MemPipeReg.isLw hmid).trans hiss.isLw
  have hrd : (s.run imem t).mem.rd =
      ((core imem).seqDec ((core imem).seqRun s.arch ((core imem).track s.abs t).iMid)).rd :=
    congrArg MemPipeReg.rd hmid
  have hnot : (s.run imem t).mem.isLw = false := by
    rw [hlw]
    cases y with
    | lw rt rs imm =>
        -- the load in front would be one that the instruction in EX depends on
        simp only [Core.fwdMid, Bool.and_eq_true, bne_iff_ne, beq_iff_eq] at hf
        have hrt : (s.run imem t).mem.rd = rt := hrd.trans (hiss.rd (Or.inl rfl))
        have hmr : (s.run imem t).mem.rd = r := hf.2
        have hr0 : r ≠ 0 := by
          rw [← hmr]
          exact hf.1.2
        obtain rfl : rt = r := hrt.symm.trans hmr
        exact absurd ⟨rt, rs, imm, x, hr0, hy.word, hx.word, hr⟩ (h.loadUse _ (by omega))
    | r | sh | i | sw | b | bz | j | jal => rfl
  show (s.run imem t).mem.masked.resAlu =
    if (s.run imem t).mem.isLw then _ else (s.run imem t).mem.masked.resAlu
  rw [hnot]
  rfl

theorem runHyps : Core.RunHyps (core imem) (k + 1) s.arch s.abs where
  lawful := lawful
  regular i _ := seqDec_regular
  zeroReg := by
    show s.regFile 0 = 0
    exact (congrFun h.boots.start.regs 0).trans h.boots.start.zero
  reset := h.boots.reset.atReset
  clean t hupto := by
    have hinv := hupto t (Nat.le_refl t)
    simp only [← abs_run] at hinv ⊢
    have hbyp : ((core imem).track s.abs t).iEx < k + 1 → ∀ r,
        (core imem).Bypassed (s.run imem t).abs r := fun hK r =>
      hinv.bypassed lawful h.written_forwarded (by omega) r
    refine ⟨?_, ?_, ?_⟩
    · intro hex hK
      exact Or.inr ⟨hbyp hK _, hinv.fwdVal1_eq h.forwards hex hK⟩
    · intro hex hK
      obtain ⟨x, hx, henc⟩ := h.encodes ((core imem).track s.abs t).iEx (by omega)
      have hiss := seqDec_issues henc
      have hdec := hinv.exFull hex hK
      cases hr : x.reads2 with
      | some r =>
          have hrt : (core imem).rs2 (s.run imem t).abs.ex.dec = r := by
            rw [hdec, henc.reads2_eq hr]
            rfl
          refine Or.inr ⟨hbyp hK _, fun hf => ?_⟩
          rw [hrt] at hf
          exact h.fwdVal2_eq hinv hex hK hx hr hf
      | none =>
          refine Or.inl ?_
          rw [hdec]
          have hm : x.controls.memWr = false := by
            cases x <;> simp [Instr.reads2, Instr.controls] at hr ⊢
          refine ignores2 (hiss.memWr.trans hm) fun hsrc => ?_
          rw [hiss.aluSrc] at hsrc
          cases x <;> simp [Instr.reads2, Instr.controls] at hr hsrc
    · intro hex hK hsh
      obtain ⟨j, hj, hbr⟩ := hinv.shEx hsh (by omega)
      rw [h.no_branch j (by omega)] at hbr
      exact absurd hbr Bool.false_ne_true

theorem valid (i : Nat) (hi : i ≤ k) :
    ((core imem).seqWb ((core imem).seqRun s.arch i)).valid = true := by
  obtain ⟨x, hx, henc⟩ := h.encodes i hi
  refine seqWb_valid henc ?_
  rintro rfl
  exact absurd hx.inClass (by decide)

/-- The registers and the memory after the last instruction. -/
theorem sameData_last :
    SameData pipelineLayout imem ((core imem).seqRun s.arch (k + 1)) (cycles sim (k + 1)) := by
  obtain ⟨x, hx, henc⟩ := h.encodes k (Nat.le_refl k)
  have hlock := h.lockstep k (Nat.le_refl k)
  exact hlock.effect hx (seqStep_follows henc (by rw [hlock.regs, hlock.zero]))

end StraightRun

end Straight

/-- Programs of register and immediate operations, loads, stores and jumps are retired as
the simulator executes them, whatever the branch predictor holds, as long as nothing takes
a loaded word through the second port right behind the load. -/
theorem straight_retires {imem : Word → Word} {s : Top} {sim : Sim}
    (hb : Boots imem s sim) {k : Nat}
    (hx : ∀ i ≤ k, ∃ x, Executes pipelineLayout Instr.isStraight (cycles sim i) x)
    (huse : ∀ i < k, ¬ LoadUse sim i) : ∃ t, Retirement imem s sim k t := by
  have hrun : StraightRun imem s sim k := ⟨hb, hx, huse⟩
  obtain ⟨t, -, -, hwb, htb, hregs, hmem, hcount⟩ := hrun.runHyps.retires k (Nat.lt_succ_self k)
  rw [← abs_run] at hwb htb hregs hmem
  have hlast := hrun.sameData_last
  have hlock := hrun.lockstep k (Nat.le_refl k)
  obtain ⟨x, hxk⟩ := hx k (Nat.le_refl k)
  refine ⟨t + 2, ⟨?_, ?_⟩, ?_, ?_, ?_, ?_⟩
  · exact (congrArg WriteBack.valid hwb).trans (hrun.valid k (Nat.le_refl k))
  · have hall : Nat.count
        (fun j => ((core imem).seqWb ((core imem).seqRun s.arch j)).valid = true) k = k :=
      Nat.count_iff_forall.mpr fun j hj => hrun.valid j (by omega)
    rw [hall] at hcount
    simp only [← abs_run] at hcount
    exact hcount
  · exact (congrArg Prod.fst htb).trans hlock.pc
  · exact (congrArg Prod.snd htb).trans (hlock.word_eq hxk).symm
  · rw [← regFileNext_abs, hregs, hlast.regs]
  · intro addr haligned hlow hhigh
    have hdmem : (s.run imem (t + 2)).dmem = ((core imem).seqRun s.arch (k + 1)).mem := hmem
    rw [hdmem]
    exact (hlast.mem.data addr haligned hlow hhigh).symm

/-! ## Fixed runs -/

/-- `top` after reset with all registers and tables at zero. -/
def Top.cleared (dmem : Word → Word) : Top where
  currPc := 0
  iss := {}
  ex := {}
  mem := {}
  wb := {}
  regFile := fun _ => 0
  dmem := dmem
  bpred := { bpred := fun _ => 0, btb := fun _ => 0 }
  tb := {}

theorem boots_cleared (imem dmem : Word → Word) :
    Boots imem (Top.cleared dmem) (bootSim pipelineLayout imem dmem fun _ => 0) where
  reset := ⟨rfl, rfl, rfl, rfl, rfl⟩
  start := lockstep_bootSim rfl

/-- `ADDI r1, r0, 0x2000`, `LW r2, 0(r1)`, `ADD r3, r2, r1`, `SW r3, 4(r1)`, `JAL 0`. -/
def copyLoop : Word → Word := fun i =>
  if i = 0 then 0x20012000 else if i = 1 then 0x8C220000 else if i = 2 then 0x00411820
  else if i = 3 then 0xAC230004 else if i = 4 then 0x0C000000 else 0

/-- The instructions of one round. -/
def copyLoopInstr : Nat → Instr
  | 0 => .i .addi 1 0 0x2000
  | 1 => .lw 2 1 0
  | 2 => .r .add 3 2 1
  | 3 => .sw 3 1 4
  | _ => .jal 0

theorem straight_retires_copyLoop :
    ∃ t, Retirement copyLoop (Top.cleared fun _ => 5)
      (bootSim pipelineLayout copyLoop (fun _ => 5) fun _ => 0) 4 t := by
  have hexec : ∀ i ≤ 4, Executes pipelineLayout Instr.isStraight
      (cycles (bootSim pipelineLayout copyLoop (fun _ => 5) fun _ => 0) i)
      (copyLoopInstr i) := by
    intro i hi
    interval_cases i <;> exact executes_of_check (by decide +kernel)
  refine straight_retires (boots_cleared _ _) (fun i hi => ⟨_, hexec i hi⟩) ?_
  rintro i hi ⟨rt, rs, imm, x, -, hload, huse, hr⟩
  have hlw : some (copyLoopInstr i) = some (.lw rt rs imm) :=
    (hexec i (by omega)).word.symm.trans hload
  have hx : some (copyLoopInstr (i + 1)) = some x :=
    (hexec (i + 1) (by omega)).word.symm.trans huse
  obtain rfl := Option.some.inj hx
  interval_cases i <;> simp [copyLoopInstr] at hlw
  obtain ⟨rfl, -, -⟩ := hlw
  simp [copyLoopInstr, Instr.reads2] at hr

end SimpleCpu.Mips
