import SimpleCpu.RiscV.CoreCorrect
import SimpleCpu.RiscV.Lockstep

/-!
# `SW` in the simulator and in the pipeline

The pipeline stores `REGS[rs2]` at `REGS[rs1]` plus the extended immediate.  The
simulator takes base and data from the other register each, and never extends the
sign of the immediate; `store_agrees_iff` says when this makes no difference.
-/

namespace SimpleCpu.RiscV

open SimpleCpu.Bits SimpleCpu.Iss SimpleCpu.Rtl SimpleCpu.RiscV.Isa SimpleCpu.RiscV.Iss

/-! ## What a store should do -/

/-- The offset of a store. -/
def Isa.immS (w : Word) : BitVec 12 := w.extractLsb' 25 7 ++ w.extractLsb' 7 5

/-- A word that encodes `SW`. -/
def Isa.IsSw (w : Word) : Prop := opcode w = 0x23 ∧ funct3 w = 2

instance (w : Word) : Decidable (IsSw w) := inferInstanceAs (Decidable (_ ∧ _))

/-- The address of a store. -/
def Isa.storeAddr (w : Word) (regs : BitVec 5 → Word) : Word :=
  regs (rs1 w) + (immS w).signExtend 32

/-- From every memory, the simulator stores `REGS[rs2]` at the address and changes no
other word. -/
def IssStores (w : Word) (regs : BitVec 5 → Word) : Prop :=
  ∀ sim : Sim, sim.current.regs = regs → ∀ addr : Word, addr &&& 3 = 0 →
    (decodeS sim w).memRead addr =
      if addr = storeAddr w regs then regs (rs2 w) else sim.memRead addr

/-- The same of the execute stage and the data memory of the pipeline. -/
def RtlStores (w : Word) (regs : BitVec 5 → Word) : Prop :=
  ∀ (iss : IssPipeReg) (dmem : Dmem), iss.instr = w → ∀ addr : Word, addr &&& 3 = 0 →
    let d := issueStage false iss
    let m := d.toMem (regs d.rs1) (regs d.rs2)
    dataMemRead (dataMemWrite dmem m.memWr m.aluRes m.rDataP2) addr =
      if addr = storeAddr w regs then regs (rs2 w) else dataMemRead dmem addr

/-! ## The pipeline -/

section Pipeline

variable {w : Word} {regs : BitVec 5 → Word}

/-- What the memory stage is handed for a store. -/
theorem toMem_of_isSw (h : IsSw w) {iss : IssPipeReg} (hiss : iss.instr = w) (v1 v2 : Word) :
    let m := (issueStage false iss).toMem v1 v2
    m.memWr = true ∧ m.aluRes = v1 + (immS w).signExtend 32 ∧ m.rDataP2 = v2 := by
  obtain ⟨hop, hf3⟩ := h
  subst hiss
  have himm : (issueStage false iss).sextImm = (immS iss.instr).signExtend 32 := by
    show (decode iss.instr).signExtndImm = _
    simp [Decode.signExtndImm, Decode.instrImm12bit, signExtnd12bit, decode_eq, hop, immS]
  have hctl : (decode iss.instr).controls =
      { pcSel := 0, op1Sel := false, op2Sel := 0b01, wbSel := 0b01, pc4Sel := false
        memWr := true, cprEn := false, rfEn := false, aluFun := aluOp .add } := by
    simp [Decode.controls, control, decode_eq, hop, hf3, controlS, Controls.ofBits, aluOp]
  refine ⟨congrArg Controls.memWr hctl, ?_, rfl⟩
  show ((issueStage false iss).alu v1 v2).res = _
  rw [IssueOut.alu_immediate (f := .add) (congrArg Controls.op1Sel hctl)
    (congrArg Controls.op2Sel hctl) (congrArg Controls.aluFun hctl), himm]
  rfl

theorem dataMemIndex_eq (addr : Word) : dataMemIndex addr = addr >>> 2 := by
  have hzero : addr - 0 = addr := BitVec.sub_zero addr
  unfold dataMemIndex
  rw [hzero]
  exact and_not_mask_shr addr

/-- An aligned word of the data memory after an aligned write inside it. -/
theorem dataMemRead_dataMemWrite {dmem : Dmem} {a b v : Word} (ha : a &&& 3 = 0)
    (hb : b &&& 3 = 0) (hin : a < 0x1FFF) :
    dataMemRead (dataMemWrite dmem true a v) b =
      if b = a then v else dataMemRead dmem b := by
  have hin' : a.toNat < 0x1FFF := hin
  rw [and_3_eq_zero_iff] at ha hb
  have hidx : dataMemIndex a ≤ 0x1FFF := by
    show (dataMemIndex a).toNat ≤ 0x1FFF
    rw [dataMemIndex_eq, BitVec.toNat_ushiftRight, Nat.shiftRight_eq_div_pow]
    omega
  have hinj : dataMemIndex b = dataMemIndex a ↔ b = a := by
    constructor
    · intro h
      have h' := congrArg BitVec.toNat h
      rw [dataMemIndex_eq, dataMemIndex_eq, BitVec.toNat_ushiftRight,
        BitVec.toNat_ushiftRight, Nat.shiftRight_eq_div_pow,
        Nat.shiftRight_eq_div_pow] at h'
      exact BitVec.eq_of_toNat_eq (by omega)
    · rintro rfl
      rfl
  have hval : ∀ x : Word, (v &&& 0xFFFFFFFF#32) ||| (~~~0xFFFFFFFF#32 &&& x) = v := by
    intro x
    have hones : (0xFFFFFFFF#32) = BitVec.allOnes 32 := by decide
    rw [hones, BitVec.and_allOnes, BitVec.not_allOnes, BitVec.zero_and, BitVec.or_zero]
  unfold dataMemWrite
  simp only [hidx, and_self, if_true, hval]
  unfold dataMemRead
  by_cases hba : b = a
  · rw [if_pos hba, hba, if_pos hidx, Function.update_self]
  · have hne : dataMemIndex b ≠ dataMemIndex a := fun h => hba (hinj.mp h)
    rw [if_neg hba, Function.update_of_ne hne]

/-- The pipeline does what a store should do. -/
theorem rtlStores (h : IsSw w) (haligned : storeAddr w regs &&& 3 = 0)
    (hin : storeAddr w regs < 0x1FFF) : RtlStores w regs := by
  intro iss dmem hiss addr haddr
  obtain ⟨hwr, hres, hdata⟩ := toMem_of_isSw h hiss (regs (issueStage false iss).rs1)
    (regs (issueStage false iss).rs2)
  have hrs1 : (issueStage false iss).rs1 = rs1 w := by
    subst hiss
    rfl
  have hrs2 : (issueStage false iss).rs2 = rs2 w := by
    subst hiss
    rfl
  show dataMemRead (dataMemWrite dmem _ _ _) addr = _
  rw [hwr, hres, hdata, hrs1, hrs2]
  exact dataMemRead_dataMemWrite haligned haddr hin

end Pipeline

/-! ## The simulator -/

section Simulator

variable {w : Word} {regs : BitVec 5 → Word}

/-- Where the simulator stores. -/
def issStoreAddr (w : Word) (regs : BitVec 5 → Word) : Word :=
  (regs (rs2 w) + (immS w).setWidth 32) &&& 0xFFFFFFFC

theorem decodeS_mem (h : IsSw w) (sim : Sim) :
    (decodeS sim w).mem = memWrite32 memRegions sim.mem
      (issStoreAddr w sim.current.regs) (sim.current.regs (rs1 w)) := by
  have hf3 : w >>> 12 &&& 0x07 = SW := by
    rw [field_funct3, h.2]
    rfl
  have hsb : ¬ SW = SB := by decide
  have hsh : ¬ SW = SH := by decide
  unfold decodeS executeS
  simp only [hf3, hsb, hsh, if_false, if_true, field_rs1, field_rs2, field_immS,
    extend_immS, reg_field]
  rfl

/-- The word at an aligned address after `SW` in the simulator. -/
theorem decodeS_memRead (h : IsSw w) (sim : Sim) {addr : Word} (haddr : addr &&& 3 = 0) :
    (decodeS sim w).memRead addr =
      if addr = issStoreAddr w sim.current.regs ∧
          (findRegion addr memRegions 0).isSome = true then
        sim.current.regs (rs1 w)
      else sim.memRead addr := by
  have haligned : issStoreAddr w sim.current.regs &&& 3 = 0 := and_not_3_aligned _
  unfold Sim.memRead
  rw [decodeS_mem h]
  generalize issStoreAddr w sim.current.regs = a at *
  cases hr : findRegion a memRegions 0 with
  | none =>
      rw [memWrite32_of_outside hr, if_neg]
      rintro ⟨rfl, hsome⟩
      simp [hr] at hsome
  | some r =>
      rw [memRead32_memWrite32_aligned haligned haddr hr]
      by_cases hba : addr = a
      · subst hba
        simp [hr]
      · simp [hba]

/-- The simulator does what a store should do exactly when base and data are equal and
the offset is not negative. -/
theorem issStores_iff (h : IsSw w) (haligned : storeAddr w regs &&& 3 = 0)
    (hin : storeAddr w regs < 0x1FFF) :
    IssStores w regs ↔ regs (rs1 w) = regs (rs2 w) ∧ (immS w).msb = false := by
  have hregion := findRegion_data hin
  constructor
  · intro hstore
    -- a memory in which nothing holds the stored value yet
    obtain ⟨sim, hregs, hfresh⟩ : ∃ sim : Sim, sim.current.regs = regs ∧
        sim.memRead (storeAddr w regs) = regs (rs2 w) + 1 := by
      refine ⟨{ current := ⟨0, regs⟩, next := ⟨0, regs⟩, runBit := true, instrOpcode := 0
                mem := Memory.ofWords fun _ _ => regs (rs2 w) + 1 }, rfl, ?_⟩
      refine memRead32_ofWords _ hregion ?_
      have hzero : storeAddr w regs - 0 = storeAddr w regs := BitVec.sub_zero _
      rw [hzero]
      exact haligned
    have hread := hstore sim hregs _ haligned
    rw [if_pos rfl, decodeS_memRead h sim haligned, hregs, hregion, hfresh] at hread
    split at hread
    next hsame =>
      refine ⟨hread, ?_⟩
      by_contra hmsb
      have haddr := congrArg BitVec.toNat hsame.1
      unfold storeAddr issStoreAddr at haddr
      rw [and_not_3_toNat, ← hread, BitVec.toNat_add, BitVec.toNat_add,
        BitVec.toNat_signExtend, if_pos (by simpa using hmsb), BitVec.toNat_setWidth] at haddr
      have himm := (immS w).isLt
      omega
    next hother =>
      exact absurd hread (by simp)
  · rintro ⟨hvals, hmsb⟩ sim hregs addr haddr
    have hext : (immS w).signExtend 32 = (immS w).setWidth 32 :=
      BitVec.signExtend_eq_setWidth_of_msb_false hmsb
    have hsame : issStoreAddr w regs = storeAddr w regs := by
      unfold issStoreAddr
      rw [← hvals, ← hext]
      exact and_not_3_of_aligned haligned
    rw [decodeS_memRead h sim haddr, hregs, hsame, hvals]
    by_cases ha : addr = storeAddr w regs
    · rw [if_pos ha, if_pos ⟨ha, by rw [ha, hregion]; rfl⟩]
    · rw [if_neg ha, if_neg fun hand => ha hand.1]

end Simulator

/-! ## Agreement -/

/-- Simulator and pipeline both store `REGS[rs2]` at `REGS[rs1]` plus the extended
offset exactly when the two registers are equal and the offset is not negative. -/
theorem store_agrees_iff {w : Word} {regs : BitVec 5 → Word} (h : IsSw w)
    (haligned : storeAddr w regs &&& 3 = 0) (hin : storeAddr w regs < 0x1FFF) :
    IssStores w regs ∧ RtlStores w regs ↔
      regs (rs1 w) = regs (rs2 w) ∧ (immS w).msb = false := by
  rw [issStores_iff h haligned hin]
  exact ⟨fun hand => hand.1, fun hcond => ⟨hcond, rtlStores h haligned hin⟩⟩

/-- `SW x2, 4(x1)` with equal registers. -/
theorem store_agrees_iff_equal :
    IssStores 0x0020A223 (fun _ => 0x100) ∧ RtlStores 0x0020A223 (fun _ => 0x100) ↔
      (0x100 : Word) = 0x100 ∧ (immS 0x0020A223).msb = false :=
  store_agrees_iff (by decide) (by decide) (by decide)

/-- `SW x2, 4(x1)` with `x1 = 0x100` and `x2 = 5`: the simulator writes `0x100` to the
word at address 8. -/
theorem store_disagrees :
    ¬ ∀ (w : Word) (regs : BitVec 5 → Word), IsSw w → storeAddr w regs &&& 3 = 0 →
      storeAddr w regs < 0x1FFF → IssStores w regs ∧ RtlStores w regs := by
  intro hall
  have hstore := (hall 0x0020A223 (fun r => if r = 1 then 0x100 else 5) (by decide)
    (by decide) (by decide)).1
  rw [issStores_iff (by decide) (by decide) (by decide)] at hstore
  exact absurd hstore.1 (by decide)

end SimpleCpu.RiscV
