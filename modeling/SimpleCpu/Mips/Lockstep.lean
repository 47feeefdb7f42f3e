import SimpleCpu.Pipeline.Basic
import SimpleCpu.Mips.IssCorrect
import SimpleCpu.Mips.Memory

/-!
# A datapath and the simulator in step

`Lockstep` says that a machine with a program counter, registers and a data memory
agrees with the simulator.  If the machine then does what the next instruction says
(`Follows`), it agrees with the simulator after one more `cycle`.  Both MIPS processors
are related to the simulator through this; they differ in their `MemLayout`.
-/

namespace SimpleCpu.Mips

open SimpleCpu.Bits SimpleCpu.Iss SimpleCpu.Pipeline SimpleCpu.Mips.Isa SimpleCpu.Mips.Iss

/-! ## Memories -/

/-- The first address behind the simulator's data region. -/
abbrev dataEnd : BitVec 32 := 0x102000

/-- The sizes of a processor's memories: enough for the programs it runs and for the
data region of the simulator. -/
structure MemLayout where
  imemSize : BitVec 32
  textEnd : BitVec 32
  dataSegBegin : BitVec 32
  dmemLast : BitVec 32
  begin_aligned : dataSegBegin &&& 3 = 0
  text_below : textEnd ≤ 0x1FFF
  text_inside : ∀ pc, pc < textEnd → instrMemIndex pc < imemSize
  data_inside : ∀ addr, 0x2000 ≤ addr → addr < dataEnd →
    dataMemIndex dataSegBegin addr ≤ dmemLast

namespace MemLayout

variable (L : MemLayout)

def fetch (imem : BitVec 32 → BitVec 32) (pc : BitVec 32) : BitVec 32 :=
  instrMemReadAt L.imemSize imem pc

def read (dmem : BitVec 32 → BitVec 32) (addr : BitVec 32) : BitVec 32 :=
  dataMemReadAt L.dataSegBegin L.dmemLast dmem addr

def write (dmem : BitVec 32 → BitVec 32) (addr value : BitVec 32) : BitVec 32 → BitVec 32 :=
  dataMemWriteAt L.dataSegBegin L.dmemLast dmem true addr value

/-- A processor's memories hold what the simulator's regions hold. -/
structure Agrees (imem dmem : BitVec 32 → BitVec 32) (sim : Sim) : Prop where
  text : ∀ pc : BitVec 32, pc &&& 3 = 0 → pc < L.textEnd → sim.memRead pc = L.fetch imem pc
  data : ∀ addr : BitVec 32, addr &&& 3 = 0 → 0x2000 ≤ addr → addr < dataEnd →
    sim.memRead addr = L.read dmem addr

end MemLayout

/-- Addresses of the text region. -/
theorem findRegion_text {pc : BitVec 32} (h : pc < 0x1FFF) :
    findRegion pc memRegions 0 = some (0, 0) := by
  have h' : pc.toNat < 0x1FFF := h
  refine findRegion_of_contains ?_ _ _
  rw [MemRegion.contains_iff (by decide)]
  exact ⟨Nat.zero_le _, by show pc.toNat < 0 + 0x1FFF; omega⟩

/-- Addresses of the data region. -/
theorem findRegion_data {addr : BitVec 32} (hlow : 0x2000 ≤ addr) (hhigh : addr < dataEnd) :
    findRegion addr memRegions 0 = some (1, 0x2000) := by
  have hlow' : 0x2000 ≤ addr.toNat := hlow
  have hhigh' : addr.toNat < 0x102000 := hhigh
  rw [memRegions, findRegion_of_not_contains]
  · refine findRegion_of_contains ?_ _ _
    rw [MemRegion.contains_iff (by decide)]
    exact ⟨hlow', by show addr.toNat < 0x2000 + 0x100000; omega⟩
  · rw [MemRegion.contains_iff (by decide)]
    show ¬ (_ ∧ addr.toNat < 0 + 0x1FFF)
    omega

namespace MemLayout

variable {L : MemLayout} {imem dmem : BitVec 32 → BitVec 32} {sim sim' : Sim}

/-- Agreement is about the simulator's memory alone. -/
theorem Agrees.of_mem_eq (h : L.Agrees imem dmem sim) (hmem : sim'.mem = sim.mem) :
    L.Agrees imem dmem sim' := by
  have hread : ∀ addr, sim'.memRead addr = sim.memRead addr := fun addr => by
    unfold Sim.memRead
    rw [hmem]
  constructor
  · intro pc ha hpc
    rw [hread, h.text pc ha hpc]
  · intro addr ha hlow hhigh
    rw [hread, h.data addr ha hlow hhigh]

/-- A word stored in the data region on both sides. -/
theorem Agrees.write (h : L.Agrees imem dmem sim) {addr : BitVec 32} (ha : addr &&& 3 = 0)
    (hlow : 0x2000 ≤ addr) (hhigh : addr < dataEnd) (value : BitVec 32)
    (hmem : sim'.mem = memWrite32 memRegions sim.mem addr value) :
    L.Agrees imem (L.write dmem addr value) sim' := by
  have hread : ∀ b : BitVec 32, b &&& 3 = 0 →
      sim'.memRead b = if b = addr then value else sim.memRead b := fun b hb => by
    unfold Sim.memRead
    rw [hmem]
    exact memRead32_memWrite32_aligned ha hb (findRegion_data hlow hhigh)
  constructor
  · intro pc hpca hpc
    have hne : pc ≠ addr := by
      rintro rfl
      have h₁ : 0x2000 ≤ pc.toNat := hlow
      have h₂ : pc.toNat < L.textEnd.toNat := hpc
      have h₃ : L.textEnd.toNat ≤ 0x1FFF := L.text_below
      omega
    rw [hread pc hpca, if_neg hne]
    exact h.text pc hpca hpc
  · intro b hb hblow hbhigh
    have hrtl : L.read (L.write dmem addr value) b = if b = addr then value else L.read dmem b :=
      dataMemReadAt_write ha hb (L.data_inside addr hlow hhigh) value
    rw [hread b hb, hrtl, h.data b hb hblow hbhigh]

/-- The simulator's memory after it has loaded the program and the data. -/
def bootMemory (L : MemLayout) (imem dmem : BitVec 32 → BitVec 32) : Memory :=
  Memory.ofWords fun i k =>
    let offset : BitVec 32 := k <<< 2
    if i = 0 then imem k else dmem (dataMemIndex L.dataSegBegin (0x2000 + offset))

theorem agrees_bootMemory (hmem : sim.mem = L.bootMemory imem dmem) :
    L.Agrees imem dmem sim := by
  constructor
  · intro pc ha hpc
    have hbelow : pc < 0x1FFF := by
      have h₁ : pc.toNat < L.textEnd.toNat := hpc
      have h₂ : L.textEnd.toNat ≤ 0x1FFF := L.text_below
      exact show pc.toNat < 0x1FFF by omega
    have hzero : pc - 0 = pc := BitVec.sub_zero pc
    unfold Sim.memRead fetch instrMemReadAt
    rw [if_pos (L.text_inside pc hpc), instrMemIndex_eq, hmem, bootMemory,
      memRead32_ofWords _ (findRegion_text hbelow) (by rwa [hzero]), hzero]
    rfl
  · intro addr ha hlow hhigh
    have hlow' : 0x2000 ≤ addr.toNat := hlow
    have hmod : addr.toNat % 4 = 0 := (and_3_eq_zero_iff addr).mp ha
    have hoff : (addr - 0x2000).toNat = addr.toNat - 0x2000 := by
      rw [BitVec.toNat_sub]
      simp
      omega
    have hback : (0x2000 : BitVec 32) + ((addr - 0x2000) >>> 2) <<< 2 = addr := by
      apply BitVec.eq_of_toNat_eq
      rw [BitVec.toNat_add, BitVec.toNat_shiftLeft, BitVec.toNat_ushiftRight, hoff,
        Nat.shiftRight_eq_div_pow, Nat.shiftLeft_eq]
      simp
      omega
    unfold Sim.memRead read dataMemReadAt
    rw [if_pos (L.data_inside addr hlow hhigh), hmem, bootMemory,
      memRead32_ofWords _ (findRegion_data hlow hhigh)
        (by rw [and_3_eq_zero_iff, hoff]; omega)]
    exact congrArg (fun a => dmem (dataMemIndex L.dataSegBegin a)) hback

end MemLayout

/-! ## Instructions -/

/-- The word of memory an instruction loads or stores. -/
def Isa.Instr.touched (regs : BitVec 5 → BitVec 32) : Instr → Option (BitVec 32)
  | .lw _ rs imm | .sw _ rs imm => some (wordAddr regs rs imm)
  | _ => none

/-- The next cycle of the simulator executes `x`, which is of the class `p`, from an
address inside the instruction memory, and touches no memory but the data region. -/
structure Executes (L : MemLayout) (p : Instr → Bool) (sim : Sim) (x : Instr) : Prop where
  inText : sim.current.pc < L.textEnd
  word : decodeInstr (sim.memRead sim.current.pc) = some x
  inClass : p x = true
  inData : ∀ addr ∈ x.touched sim.current.regs, 0x2000 ≤ addr ∧ addr < dataEnd

/-- What a machine makes of its registers and its memory is what `x` says. -/
structure Follows (L : MemLayout) (x : Instr)
    (a a' : Arch (BitVec 32) (BitVec 5) (BitVec 32 → BitVec 32)) : Prop where
  regs : a'.regs = x.nextRegs (L.read a.mem) a.pc a.regs
  mem : a'.mem =
    match x.stored a.regs with
    | some (addr, value) => L.write a.mem addr value
    | none => a.mem

/-- The registers and the memories agree. -/
structure SameData (L : MemLayout) (imem : BitVec 32 → BitVec 32)
    (a : Arch (BitVec 32) (BitVec 5) (BitVec 32 → BitVec 32)) (sim : Sim) : Prop where
  next : sim.next = sim.current
  zero : sim.current.regs 0 = 0
  regs : a.regs = sim.current.regs
  mem : L.Agrees imem a.mem sim

/-- So do the program counters. -/
structure Lockstep (L : MemLayout) (imem : BitVec 32 → BitVec 32)
    (a : Arch (BitVec 32) (BitVec 5) (BitVec 32 → BitVec 32)) (sim : Sim) : Prop
    extends SameData L imem a sim where
  pc : a.pc = sim.current.pc
  aligned : sim.current.pc &&& 3 = 0

/-- Instructions lead from word to word. -/
theorem Isa.Instr.nextPc_aligned {pc : BitVec 32} (h : pc &&& 3 = 0)
    (regs : BitVec 5 → BitVec 32) (x : Instr) : x.nextPc pc regs &&& 3 = 0 := by
  have hlow : ∀ y : BitVec 32, y &&& 3 = 0 ↔ y.getLsbD 0 = false ∧ y.getLsbD 1 = false := by
    intro y
    rw [and_3_eq_zero_iff, BitVec.getLsbD, BitVec.getLsbD, Nat.testBit_zero,
      Nat.testBit_succ, Nat.testBit_zero]
    simp only [decide_eq_false_iff_not]
    omega
  have hseq : (pc + 4) &&& 3 = 0 := by
    rw [and_3_eq_zero_iff] at h ⊢
    rw [BitVec.toNat_add]
    simp
    omega
  have hbranch : ∀ imm, branchTarget pc imm &&& 3 = 0 := by
    intro imm
    rw [and_3_eq_zero_iff] at hseq ⊢
    simp only [branchTarget]
    rw [BitVec.toNat_add, BitVec.toNat_shiftLeft, Nat.shiftLeft_eq]
    omega
  have hjump : ∀ t, jumpTarget pc t &&& 3 = 0 := by
    intro t
    rw [hlow] at hseq ⊢
    simp [jumpTarget]
  cases x with
  | b | bz =>
      simp only [nextPc]
      split
      · exact hbranch _
      · exact hseq
  | j | jal => exact hjump _
  | r | sh | i | lw | sw => exact hseq

section Step

variable {L : MemLayout} {imem : BitVec 32 → BitVec 32} {p : Instr → Bool} {x : Instr}
  {a a' : Arch (BitVec 32) (BitVec 5) (BitVec 32 → BitVec 32)} {sim : Sim}

/-- The word the simulator executes next is the one a machine in lockstep fetches. -/
theorem Lockstep.word_eq (h : Lockstep L imem a sim) (hx : Executes L p sim x) :
    sim.memRead sim.current.pc = L.fetch imem a.pc := by
  rw [h.pc]
  exact h.mem.text _ h.aligned hx.inText

theorem Lockstep.encodes (h : Lockstep L imem a sim) (hx : Executes L p sim x) :
    Encodes (L.fetch imem a.pc) x := by
  rw [← h.word_eq hx]
  exact encodes_of_decodeInstr hx.word

theorem Isa.Instr.touched_of_loaded {regs : BitVec 5 → BitVec 32} {addr : BitVec 32}
    (h : addr ∈ x.loaded regs) : addr ∈ x.touched regs := by
  cases x with
  | lw => exact h
  | r | sh | i | sw | b | bz | j | jal => exact absurd h nofun

theorem Isa.Instr.touched_of_stored {regs : BitVec 5 → BitVec 32} {addr value : BitVec 32}
    (h : x.stored regs = some (addr, value)) :
    addr ∈ x.touched regs ∧ addr &&& 3 = 0 := by
  cases x with
  | sw =>
      obtain ⟨rfl, -⟩ := Prod.mk.inj (Option.some.inj h)
      exact ⟨rfl, and_not_3_aligned _⟩
  | r | sh | i | lw | b | bz | j | jal => exact absurd h nofun

/-- One more instruction, as far as registers and memory go. -/
theorem Lockstep.effect (h : Lockstep L imem a sim) (hx : Executes L p sim x)
    (hf : Follows L x a a') : SameData L imem a' (cycle sim) := by
  have hcycle := cycle_eq h.next hx.word
  have hload : x.nextRegs (L.read a.mem) a.pc a.regs =
      x.nextRegs sim.memRead sim.current.pc sim.current.regs := by
    rw [h.pc, h.regs]
    refine Instr.nextRegs_congr fun addr haddr => ?_
    obtain ⟨hlow, hhigh⟩ := hx.inData addr (Instr.touched_of_loaded haddr)
    refine (h.mem.data addr ?_ hlow hhigh).symm
    cases x with
    | lw =>
        obtain rfl := Option.some.inj haddr
        exact and_not_3_aligned _
    | r | sh | i | sw | b | bz | j | jal => exact absurd haddr nofun
  refine ⟨?_, ?_, ?_, ?_⟩
  · rw [hcycle]
    rfl
  · rw [hcycle]
    exact Instr.nextRegs_zero _ _ h.zero x
  · rw [hcycle, hf.regs, hload]
    rfl
  · have hstored : (cycle sim).mem = sim.stored x := by rw [hcycle]; rfl
    rw [hf.mem, h.regs]
    unfold Sim.stored at hstored
    cases hst : x.stored sim.current.regs with
    | none =>
        rw [hst] at hstored
        exact h.mem.of_mem_eq hstored
    | some av =>
        obtain ⟨addr, value⟩ := av
        rw [hst] at hstored
        obtain ⟨htouched, haligned⟩ := Instr.touched_of_stored hst
        obtain ⟨hlow, hhigh⟩ := hx.inData addr htouched
        exact h.mem.write haligned hlow hhigh value hstored

/-- One more instruction. -/
theorem Lockstep.cycle (h : Lockstep L imem a sim) (hx : Executes L p sim x)
    (hf : Follows L x a a') (hpc : a'.pc = x.nextPc a.pc a.regs) :
    Lockstep L imem a' (cycle sim) := by
  have hnext : (Iss.cycle sim).current.pc = x.nextPc sim.current.pc sim.current.regs := by
    rw [cycle_eq h.next hx.word]
    rfl
  refine { h.effect hx hf with pc := ?_, aligned := ?_ }
  · rw [hpc, hnext, h.pc, h.regs]
  · rw [hnext]
    exact Instr.nextPc_aligned h.aligned _ x

end Step

/-! ## The start -/

/-- The simulator before its first cycle, with the memories and registers of a
processor. -/
def bootSim (L : MemLayout) (imem dmem : BitVec 32 → BitVec 32)
    (regs : BitVec 5 → BitVec 32) : Sim where
  current := { pc := 0, regs := regs, hi := 0, lo := 0 }
  next := { pc := 0, regs := regs, hi := 0, lo := 0 }
  mem := L.bootMemory imem dmem
  runBit := true
  instrOpcode := 0
  trapped := false

theorem lockstep_bootSim {L : MemLayout} {imem dmem : BitVec 32 → BitVec 32}
    {regs : BitVec 5 → BitVec 32} (hzero : regs 0 = 0) :
    Lockstep L imem { pc := 0, regs := regs, mem := dmem } (bootSim L imem dmem regs) where
  next := rfl
  zero := hzero
  regs := rfl
  mem := L.agrees_bootMemory rfl
  pc := rfl
  aligned := by show (0 : BitVec 32) &&& 3 = 0; decide

/-- `Executes` by evaluation. -/
theorem executes_of_check {L : MemLayout} {p : Instr → Bool} {sim : Sim} {x : Instr}
    (h : (decide (sim.current.pc < L.textEnd) &&
      decodeInstr (sim.memRead sim.current.pc) == some x && p x &&
      (x.touched sim.current.regs).all fun addr =>
        decide (0x2000 ≤ addr) && decide (addr < dataEnd)) = true) :
    Executes L p sim x := by
  simp only [Bool.and_eq_true, beq_iff_eq, decide_eq_true_eq] at h
  obtain ⟨⟨⟨htext, hword⟩, hclass⟩, hdata⟩ := h
  refine ⟨htext, hword, hclass, fun addr haddr => ?_⟩
  rw [Option.mem_def] at haddr
  rw [haddr] at hdata
  simpa using hdata

end SimpleCpu.Mips
