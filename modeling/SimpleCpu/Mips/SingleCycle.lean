import SimpleCpu.Mips.Datapath
import SimpleCpu.Mips.Lockstep

/-!
# The single-cycle processor

`top` of the single-cycle processor, and its lockstep with the simulator
(`single_cycle_lockstep`).  A state is what the program counter, the register file and
the data memory hold; everything else is combinational.
-/

namespace SimpleCpu.Mips.SingleCycle

open SimpleCpu.Rtl SimpleCpu.Pipeline SimpleCpu.Mips.Isa SimpleCpu.Mips.Iss

/-- The registers and memories of `top`. -/
structure Top where
  currPc : BitVec 32
  regFile : BitVec 5 → BitVec 32
  dmem : BitVec 32 → BitVec 32

/-- `data_mem`, read port. -/
def dataMemRead (dmem : BitVec 32 → BitVec 32) (addr : BitVec 32) : BitVec 32 :=
  dataMemReadAt 0x1000 0x100000 dmem addr

/-- `data_mem`, write port. -/
def dataMemWrite (dmem : BitVec 32 → BitVec 32) (wrEn : Bool) (addr wrData : BitVec 32) :
    BitVec 32 → BitVec 32 :=
  dataMemWriteAt 0x1000 0x100000 dmem wrEn addr wrData

namespace Top

variable (imem : BitVec 32 → BitVec 32) (reset : Bool) (s : Top)

/-- `instr_top` -/
def instr : BitVec 32 := instrMemReadAt 1024 imem s.currPc

/-- Outputs of `decode`. -/
def dec : Decode := decodeSingleCycle (s.instr imem)

/-- Outputs of `control`. -/
def ctl : Controls := controlSingleCycle (s.dec imem).op (s.dec imem).funct

def rs : BitVec 5 := (s.dec imem).readReg1 (s.ctl imem)

def rd : BitVec 5 := (s.dec imem).writeReg (s.ctl imem)

def signImm : BitVec 32 := (s.dec imem).signImm (s.ctl imem).signExt

def rDataP1 : BitVec 32 := s.regFile (s.rs imem)

/-- `r_data_p2_rf_top` -/
def rDataP2Rf : BitVec 32 := s.regFile (s.dec imem).rt

/-- `r_data_p2_top` -/
def rDataP2 : BitVec 32 :=
  aluOperand2 (s.ctl imem).aluSrc (s.dec imem).shamt (s.signImm imem) (s.rDataP2Rf imem)

/-- Outputs of `alu`. -/
def alu : AluOut := aluSingleCycle (s.rDataP1 imem) (s.rDataP2 imem) (s.ctl imem).aluOp

def nextSeqPc : BitVec 32 := (adderSingleCycle s.currPc 0x4 false).sum

def nextBeqPc : BitVec 32 := (adderSingleCycle s.nextSeqPc (s.signImm imem <<< 2) false).sum

def nextBrnEqPc : BitVec 32 :=
  if branchTaken (s.ctl imem).branch (s.dec imem).op (s.dec imem).rt (s.alu imem).z
      (s.alu imem).n then
    s.nextBeqPc imem
  else s.nextSeqPc

def nextPc : BitVec 32 :=
  if (s.ctl imem).jump then nextJmpPc s.nextSeqPc (s.instr imem) else s.nextBrnEqPc imem

def wrData : BitVec 32 :=
  wrDataRf (s.dec imem).useLinkReg s.nextSeqPc (s.rd imem) (s.ctl imem).memToReg
    (dataMemRead s.dmem (s.alu imem).res) (s.alu imem).res

/-- One clock of `top`. -/
def clock : Top where
  currPc := if reset then 0 else s.nextPc imem
  regFile :=
    if (s.ctl imem).regWr || (s.dec imem).useLinkReg then
      Function.update s.regFile (s.rd imem) (s.wrData imem)
    else s.regFile
  dmem := dataMemWrite s.dmem (s.ctl imem).memWr (s.alu imem).res (s.rDataP2Rf imem)

/-- `top` after `k` clocks with `reset` low. -/
def run : Nat → Top
  | 0 => s
  | k + 1 => (run k).clock imem false

/-- What the programmer sees of `top`. -/
def arch : Arch (BitVec 32) (BitVec 5) (BitVec 32 → BitVec 32) where
  pc := s.currPc
  regs := s.regFile
  mem := s.dmem

end Top

/-- The memories of the single-cycle processor. -/
def singleCycleLayout : MemLayout where
  imemSize := 1024
  textEnd := 0x1000
  dataSegBegin := 0x1000
  dmemLast := 0x100000
  begin_aligned := by decide
  text_below := by decide
  text_inside pc h := by
    have h' : pc.toNat < 0x1000 := h
    show (instrMemIndex pc).toNat < 1024
    rw [instrMemIndex_eq, BitVec.toNat_ushiftRight, Nat.shiftRight_eq_div_pow]
    omega
  data_inside addr hlow hhigh := by
    have hlow' : 0x2000 ≤ addr.toNat := hlow
    have hhigh' : addr.toNat < 0x102000 := hhigh
    show (dataMemIndex 0x1000 addr).toNat ≤ 0x100000
    rw [dataMemIndex_toNat, BitVec.toNat_sub]
    simp
    omega

/-! ## One clock -/

/-- Everything but the two signed comparisons, whose result is wrong on overflow. -/
def isSupported : Instr → Bool
  | .r f .. => f ≠ .slt
  | .i f .. => f ≠ .slti
  | _ => true

section Step

variable {imem : BitVec 32 → BitVec 32} {s : Top} {x : Instr}

theorem ctl_eq (h : Encodes (s.instr imem) x) : s.ctl imem = x.controls :=
  controlSingleCycle_eq h

theorem isRType_op (h : (s.dec imem).isRType = true) : op (s.instr imem) = 0 := by
  have h' : (op (s.instr imem) == 0) = true := h
  simpa using h'

theorem useLinkReg_eq (h : Encodes (s.instr imem) x) : (s.dec imem).useLinkReg = x.links :=
  Mips.useLinkReg_eq h isRType_op

theorem rd_eq (h : Encodes (s.instr imem) x)
    (hw : x.controls.regWr = true ∨ x.links = true) : s.rd imem = x.dest := by
  unfold Top.rd
  rw [ctl_eq h]
  exact writeReg_eq h isRType_op hw

theorem rDataP1_eq (h : Encodes (s.instr imem) x) :
    s.rDataP1 imem = s.regFile (x.source1 (s.instr imem)) := by
  unfold Top.rDataP1 Top.rs
  rw [ctl_eq h]
  exact congrArg s.regFile (readReg1_eq h _)

theorem rDataP2_eq (h : Encodes (s.instr imem) x) :
    s.rDataP2 imem = x.operand2 (s.regFile (rt (s.instr imem))) := by
  unfold Top.rDataP2 Top.signImm
  rw [ctl_eq h]
  exact aluOperand2_eq h _ _

theorem alu_eq (h : Encodes (s.instr imem) x) :
    s.alu imem = aluSingleCycle (s.regFile (x.source1 (s.instr imem)))
      (x.operand2 (s.regFile (rt (s.instr imem)))) x.controls.aluOp := by
  unfold Top.alu
  rw [ctl_eq h, rDataP1_eq h, rDataP2_eq h]

theorem alu_res_eq (h : Encodes (s.instr imem) x) (hx : isSupported x = true) :
    (s.alu imem).res = x.aluRes (s.regFile (x.source1 (s.instr imem)))
      (s.regFile (rt (s.instr imem))) := by
  rw [alu_eq h]
  refine aluSingleCycle_res_eq x _ _ ?_ ?_
  · rintro rd rs rt rfl
    simp [isSupported] at hx
  · rintro rt rs imm rfl
    simp [isSupported] at hx

/-- The flags a branch looks at. -/
theorem aluSingleCycle_flags (x : Instr) (v1 v2 : BitVec 32) (hb : x.isBranch = true) :
    (aluSingleCycle v1 (x.operand2 v2) x.controls.aluOp).z = (v1 == x.operand2 v2) ∧
      (x.operand2 v2 = 0 →
        (aluSingleCycle v1 (x.operand2 v2) x.controls.aluOp).n = v1.slt 0) := by
  cases x with
  | b f rs rt imm =>
      refine ⟨aluSingleCycle_sub_z v1 v2, fun h0 => ?_⟩
      rw [h0]
      exact aluSingleCycle_sub_zero_n v1
  | bz f rs imm =>
      cases f with
      | blez | bgtz => exact ⟨aluSingleCycle_add_zero_z v1, fun _ => aluSingleCycle_add_zero_n v1⟩
      | bltz | bgez | bltzal | bgezal =>
          exact ⟨aluSingleCycle_sub_z v1 0, fun _ => aluSingleCycle_sub_zero_n v1⟩
  | r | sh | i | lw | sw | j | jal => exact absurd hb nofun

theorem nextSeqPc_eq : s.nextSeqPc = s.currPc + 4 := by
  simp [Top.nextSeqPc, adderSingleCycle_sum]

/-- The branch target. -/
theorem nextBeqPc_eq (h : Encodes (s.instr imem) x) (hb : x.isBranch = true) :
    s.nextBeqPc imem = branchTarget s.currPc (imm16 (s.instr imem)) := by
  have hsign : s.signImm imem = (imm16 (s.instr imem)).signExtend 32 := by
    unfold Top.signImm
    rw [ctl_eq h]
    cases x with
    | b | bz => rfl
    | r | sh | i | lw | sw | j | jal => exact absurd hb nofun
  unfold Top.nextBeqPc
  rw [hsign, nextSeqPc_eq]
  simp [branchTarget, adderSingleCycle_sum]

theorem clock_pc (h : Encodes (s.instr imem) x) (hpc : s.currPc.toNat < 2 ^ 26)
    (hnext : (x.nextPc s.currPc s.regFile).toNat < 2 ^ 26) :
    (s.clock imem false).currPc = x.nextPc s.currPc s.regFile := by
  show s.nextPc imem = _
  have htaken : branchTaken (s.ctl imem).branch (s.dec imem).op (s.dec imem).rt
      (s.alu imem).z (s.alu imem).n =
        x.taken (s.regFile (x.source1 (s.instr imem))) (s.regFile (rt (s.instr imem))) := by
    rw [ctl_eq h, alu_eq h]
    refine branchTaken_eq h _ _ ?_ ?_
    · exact fun hb => (aluSingleCycle_flags x _ _ hb).1
    · exact fun hb => (aluSingleCycle_flags x _ _ hb).2
  unfold Top.nextPc Top.nextBrnEqPc
  rw [htaken, nextSeqPc_eq, ctl_eq h]
  have hbeq := nextBeqPc_eq h
  generalize s.instr imem = w at h hbeq ⊢
  cases h with
  | j | jal => exact nextJmpPc_eq hpc hnext
  | b | bz =>
      rw [hbeq rfl]
      rfl
  | r | sh | i | lw | sw => rfl

/-- What a clock writes to the registers, whatever the ALU makes of the operands. -/
theorem clock_regFile (h : Encodes (s.instr imem) x) (h0 : s.regFile 0 = 0) :
    (s.clock imem false).regFile =
      if x.controls.regWr || x.links then
        writeReg s.regFile x.dest
          (if x.links then s.currPc + 4
            else if x.controls.memToReg then dataMemRead s.dmem (s.alu imem).res
            else (s.alu imem).res)
      else s.regFile := by
  show (if (s.ctl imem).regWr || (s.dec imem).useLinkReg then _ else _) = _
  rw [ctl_eq h, useLinkReg_eq h]
  cases hw : x.controls.regWr || x.links with
  | false => rfl
  | true =>
      simp only [if_true]
      unfold Top.wrData
      rw [rd_eq h (by simpa using hw), ctl_eq h, useLinkReg_eq h, wrDataRf_dest, nextSeqPc_eq,
        update_eq_writeReg h0]

/-- One clock does what the instruction says to the registers and the memory. -/
theorem clock_follows (h : Encodes (s.instr imem) x) (hx : isSupported x = true)
    (h0 : s.regFile 0 = 0) :
    Follows singleCycleLayout x s.arch (s.clock imem false).arch where
  regs := by
    show (s.clock imem false).regFile = x.nextRegs (dataMemRead s.dmem) s.currPc s.regFile
    have halign : dataMemRead s.dmem ((s.alu imem).res &&& 0xFFFFFFFC) =
        dataMemRead s.dmem (s.alu imem).res := dataMemReadAt_align (by decide) _
    unfold Instr.nextRegs
    rw [clock_regFile h h0, result_eq h, ← alu_res_eq h hx, halign]
    cases x.controls.regWr || x.links with
    | false => rfl
    | true => rfl
  mem := by
    show dataMemWrite s.dmem (s.ctl imem).memWr (s.alu imem).res
      (s.regFile (rt (s.instr imem))) = _
    rw [ctl_eq h, alu_res_eq h hx]
    generalize s.instr imem = w at h ⊢
    cases h with
    | sw => exact (dataMemWriteAt_align (by decide) _ _).symm
    | r | sh | i | lw | b | bz | j | jal => exact dataMemWriteAt_false _ _

end Step

/-! ## Whole runs -/

/-- `top` right after reset and the simulator before its first cycle, with the same
program, data and registers. -/
structure Boots (imem : BitVec 32 → BitVec 32) (s : Top) (sim : Sim) : Prop where
  reset : s.currPc = 0
  start : Lockstep singleCycleLayout imem s.arch sim

section Run

variable {imem : BitVec 32 → BitVec 32} {s : Top} {sim : Sim} {k : Nat}

/-- A program of the supported instructions whose addresses stay inside the instruction
memory. -/
structure SupportedRun (sim : Sim) (k : Nat) : Prop where
  executes : ∀ i < k, ∃ x, Executes singleCycleLayout isSupported (cycles sim i) x
  inText : ∀ i ≤ k, (cycles sim i).current.pc < 0x1000

/-- One more instruction, if the clock does to registers and memory what it says. -/
theorem clock_lockstep {p : Instr → Bool} {x : Instr}
    (h : Lockstep singleCycleLayout imem s.arch sim) (hx : Executes singleCycleLayout p sim x)
    (hnext : (cycle sim).current.pc < 0x1000)
    (hf : Follows singleCycleLayout x s.arch (s.clock imem false).arch) :
    Lockstep singleCycleLayout imem (s.clock imem false).arch (cycle sim) := by
  have hpc : s.currPc = sim.current.pc := h.pc
  have hregs : s.regFile = sim.current.regs := h.regs
  have hnow : sim.current.pc.toNat < 0x1000 := hx.inText
  have hthen : (cycle sim).current.pc.toNat < 0x1000 := hnext
  have hstep : (cycle sim).current.pc = x.nextPc s.currPc s.regFile := by
    rw [hpc, hregs, cycle_eq h.next hx.word]
    rfl
  refine h.cycle hx hf (clock_pc (h.encodes hx) ?_ ?_)
  · rw [hpc]
    omega
  · rw [← hstep]
    omega

theorem Boots.lockstep (hb : Boots imem s sim) (h : SupportedRun sim k) (i : Nat)
    (hi : i ≤ k) : Lockstep singleCycleLayout imem (s.run imem i).arch (cycles sim i) := by
  induction i with
  | zero => exact hb.start
  | succ i ih =>
      have hlock := ih (by omega)
      obtain ⟨x, hx⟩ := h.executes i (by omega)
      have hregs : (s.run imem i).regFile = (cycles sim i).current.regs := hlock.regs
      refine clock_lockstep hlock hx (h.inText (i + 1) hi) ?_
      exact clock_follows (hlock.encodes hx) hx.inClass (by rw [hregs, hlock.zero])

end Run

/-- After any number of clocks the program counter, the registers and the data are those
of the simulator after as many cycles. -/
theorem single_cycle_lockstep {imem : BitVec 32 → BitVec 32} {s : Top} {sim : Sim}
    (hb : Boots imem s sim) {k : Nat} (h : SupportedRun sim k) :
    (s.run imem k).currPc = (cycles sim k).current.pc ∧
      (s.run imem k).regFile = (cycles sim k).current.regs ∧
      ∀ addr : BitVec 32, addr &&& 3 = 0 → 0x2000 ≤ addr → addr < dataEnd →
        dataMemRead (s.run imem k).dmem addr = (cycles sim k).memRead addr := by
  have hlock := hb.lockstep h k (Nat.le_refl k)
  exact ⟨hlock.pc, hlock.regs, fun addr ha hlow hhigh =>
    (hlock.mem.data addr ha hlow hhigh).symm⟩

/-- `ADDI r1, r0, 0x2000`, `LW r2, 0(r1)`, `BLTZAL r2, 1` and, behind the instruction
that is skipped, `SW r31, 4(r1)` and `J 0`. -/
def linkLoop : BitVec 32 → BitVec 32 := fun i =>
  if i = 0 then 0x20012000 else if i = 1 then 0x8C220000 else if i = 2 then 0x04500001
  else if i = 4 then 0xAC3F0004 else 0x08000000

/-- The instructions of one round. -/
def linkLoopInstr : Nat → Instr
  | 0 => .i .addi 1 0 0x2000
  | 1 => .lw 2 1 0
  | 2 => .bz .bltzal 2 1
  | 3 => .sw 31 1 4
  | _ => .j 0

/-- `top` after reset with all registers at zero. -/
def Top.cleared (dmem : BitVec 32 → BitVec 32) : Top where
  currPc := 0
  regFile := fun _ => 0
  dmem := dmem

theorem single_cycle_lockstep_linkLoop :
    let s := Top.cleared fun _ => 0xefefefef
    let sim := bootSim singleCycleLayout linkLoop s.dmem s.regFile
    (s.run linkLoop 5).currPc = (cycles sim 5).current.pc ∧
      (s.run linkLoop 5).regFile = (cycles sim 5).current.regs ∧
      ∀ addr : BitVec 32, addr &&& 3 = 0 → 0x2000 ≤ addr → addr < dataEnd →
        dataMemRead (s.run linkLoop 5).dmem addr = (cycles sim 5).memRead addr := by
  intro s sim
  refine single_cycle_lockstep ⟨rfl, lockstep_bootSim rfl⟩ ⟨fun i hi => ?_, fun i hi => ?_⟩
  · refine ⟨linkLoopInstr i, executes_of_check ?_⟩
    interval_cases i <;> decide +kernel
  · interval_cases i <;> decide +kernel

end SimpleCpu.Mips.SingleCycle
