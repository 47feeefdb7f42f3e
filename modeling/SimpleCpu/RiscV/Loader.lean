import SimpleCpu.Iss.Image
import SimpleCpu.RiscV.WholePrograms

/-!
# Loading a program

The testbench and the simulator read one program from the same two files.  Each leaves the
addresses that the files do not name as they were.  The bytes that `init_memory` leaves
there are a `JAL` to the simulator, so that a program has to stay inside its files.

Such a run of supported instructions is a run of the simulator with the text of the
testbench: `LoadedRun.sameText`.
-/

namespace SimpleCpu.RiscV

open SimpleCpu.Bits SimpleCpu.CoSim SimpleCpu.Iss SimpleCpu.Rtl SimpleCpu.RiscV.Isa
  SimpleCpu.RiscV.Iss

/-! ## The testbench -/

/-- `init_imem`, from the pairs of address and word that the two files hold. -/
def initImem (imem : Word → Word) (words : List (Word × Word)) : Word → Word :=
  loadWords (fun pc => (pc - 0x2000) >>> 2) 2048 imem words

/-- `init_dmem` -/
def initDmem (dmem : Word → Word) : Word → Word := fillWords 0x40000 0xefefefef dmem

/-- Files that the testbench loads to the end, with all words inside the instruction
memory. -/
structure Loadable (words : List (Word × Word)) : Prop where
  fits : words.length ≤ 2048
  nonzero : ∀ p ∈ words, p.2 ≠ 0
  aligned : ∀ p ∈ words, p.1 &&& 3 = 0
  low : ∀ p ∈ words, 0x2000 ≤ p.1
  high : ∀ p ∈ words, p.1 < 0x3FFC

/-! ## What has been loaded -/

section Load

variable {words : List (Word × Word)} {a : Word} {imem : Word → Word}

/-- The address of a word in the instruction memory. -/
structure InText (a : Word) : Prop where
  aligned : a &&& 3 = 0
  low : 0x2000 ≤ a
  high : a < 0x3FFC

theorem InText.inRegion (h : InText a) : InRegion memRegions a :=
  ⟨h.aligned, _, findRegion_text h.low h.high⟩

theorem Loadable.ok (h : Loadable words) (p : Word × Word) (hp : p ∈ words) : InText p.1 :=
  ⟨h.aligned p hp, h.low p hp, h.high p hp⟩

theorem textIndex_toNat (h : InText a) : ((a - 0x2000) >>> 2).toNat = (a.toNat - 0x2000) / 4 := by
  have hlow : 0x2000 ≤ a.toNat := h.low
  have hlt := a.isLt
  rw [BitVec.toNat_ushiftRight, Nat.shiftRight_eq_div_pow, BitVec.toNat_sub]
  simp
  omega

/-- Words in the instruction memory. -/
theorem stores_imem : Stores InText (fun (imem : Word → Word) a => imem ((a - 0x2000) >>> 2))
    (storeWord (fun pc => (pc - 0x2000) >>> 2) 2048) := by
  refine stores_storeWord (fun a ha => ?_) fun a b ha hb hidx => ?_
  · have hhigh : a.toNat < 0x3FFC := ha.high
    show ((a - 0x2000) >>> 2).toNat < 2048
    rw [textIndex_toNat ha]
    omega
  · have hidx' := congrArg BitVec.toNat hidx
    rw [textIndex_toNat ha, textIndex_toNat hb] at hidx'
    have hlow : 0x2000 ≤ a.toNat := ha.low
    have hlow' : 0x2000 ≤ b.toNat := hb.low
    have ha' := (and_3_eq_zero_iff a).mp ha.aligned
    have hb' := (and_3_eq_zero_iff b).mp hb.aligned
    exact BitVec.eq_of_toNat_eq (by omega)

theorem instrMemRead_eq (ha : InText a) : instrMemRead imem a = imem ((a - 0x2000) >>> 2) := by
  have hindex : instrMemIndex a = (a - 0x2000) >>> 2 := and_not_mask_shr _
  have hhigh : a.toNat < 0x3FFC := ha.high
  have hlt : instrMemIndex a < 2048 := by
    show (instrMemIndex a).toNat < 2048
    rw [hindex, textIndex_toNat ha]
    omega
  unfold instrMemRead
  rw [if_pos hlt, hindex]

theorem loadProgram_eq (s : Sim) (words : List (Word × Word)) :
    loadProgram s words = { s with mem := loadMem memRegions s.mem words } := by
  unfold loadMem
  induction words generalizing s with
  | nil => rfl
  | cons p words ih => exact ih (s.memWrite p.1 p.2)

theorem loadProgram_memRead (preload : Bool) (words : List (Word × Word)) :
    (loadProgram (initMemory preload) words).memRead a =
      memRead32 memRegions (loadMem memRegions (fun _ _ => 0xef) words) a := by
  rw [loadProgram_eq]
  rfl

/-- Testbench and simulator agree on the words of the files. -/
theorem Loadable.initImem_fetch (h : Loadable words) (preload : Bool)
    (ha : a ∈ words.map Prod.fst) :
    (loadProgram (initMemory preload) words).memRead a =
      instrMemRead (initImem imem words) a := by
  have htext : InText a := by
    obtain ⟨p, hp, rfl⟩ := List.mem_map.mp ha
    exact h.ok p hp
  rw [instrMemRead_eq htext, loadProgram_memRead]
  unfold initImem
  rw [loadWords_eq h.fits h.nonzero]
  exact ((stores_mem memRegions).mono fun _ => InText.inRegion).foldl_agree stores_imem h.ok htext
    (Or.inl ha)

/-- Both data memories are filled with the same bytes. -/
theorem Loadable.data (h : Loadable words) (preload : Bool) (dmem : Word → Word)
    (ha : a &&& 3 = 0) (hlt : a < 0x1FFF) :
    (loadProgram (initMemory preload) words).memRead a = dataMemRead (initDmem dmem) a := by
  have hlt' : a.toNat < 0x1FFF := hlt
  have hregion : InRegion memRegions a := ⟨ha, _, findRegion_data hlt⟩
  have hmem : a ∉ words.map Prod.fst := by
    intro hmem
    obtain ⟨p, hp, rfl⟩ := List.mem_map.mp hmem
    have hlow : 0x2000 ≤ p.1.toNat := h.low p hp
    omega
  have hindex : (dataMemIndex a).toNat = a.toNat / 4 := by
    have hshift : dataMemIndex a = (a - 0) >>> 2 := and_not_mask_shr _
    rw [hshift, BitVec.ofNat_eq_ofNat, BitVec.sub_zero, BitVec.toNat_ushiftRight,
      Nat.shiftRight_eq_div_pow]
  have hbound : dataMemIndex a ≤ 0x1FFF := by
    show (dataMemIndex a).toNat ≤ 0x1FFF
    omega
  have hfilled : dataMemIndex a < 0x40000 := by
    show (dataMemIndex a).toNat < 0x40000
    omega
  rw [loadProgram_memRead, loadMem_other (fun p hp => (h.ok p hp).inRegion) hregion hmem,
    memRead32_ef hregion]
  unfold dataMemRead initDmem fillWords
  rw [if_pos hbound, if_pos hfilled]

end Load

/-! ## The simulator with the text of the testbench -/

/-- The simulator with the words of `imem` as its text. -/
def withText (imem : Word → Word) (sim : Sim) : Sim :=
  { sim with mem := fun i => if i = 0 then Memory.ofWords (fun _ => imem) i else sim.mem i }

/-- A run of suitable instructions whose words the testbench has loaded. -/
structure LoadedRun (imem : Word → Word) (sim : Sim) (k : Nat) : Prop where
  next : sim.next = sim.current
  zero : sim.current.regs 0 = 0
  suits : Suits sim k
  text : ∀ i ≤ k, sim.memRead (cycles sim i).current.pc =
    instrMemRead imem (cycles sim i).current.pc

/-- Both simulators after `i` cycles. -/
structure SameText (imem : Word → Word) (sim : Sim) (i : Nat) : Prop where
  current : (cycles (withText imem sim) i).current = (cycles sim i).current
  next : (cycles sim i).next = (cycles sim i).current
  next' : (cycles (withText imem sim) i).next = (cycles (withText imem sim) i).current
  zero : (cycles sim i).current.regs 0 = 0
  mem : (cycles sim i).mem = sim.mem
  mem' : (cycles (withText imem sim) i).mem = (withText imem sim).mem

section Text

variable {imem : Word → Word} {sim : Sim} {i k : Nat}

theorem withText_fetch {a : Word} (ha : InText a) :
    (withText imem sim).memRead a = instrMemRead imem a := by
  have hfind := findRegion_text ha.low ha.high
  have hoff : (a - 0x2000) &&& 3 = 0 := by
    have hlow : 0x2000 ≤ a.toNat := ha.low
    have hmod := (and_3_eq_zero_iff a).mp ha.aligned
    rw [and_3_eq_zero_iff, BitVec.toNat_sub]
    simp
    omega
  have htext : (withText imem sim).mem 0 = Memory.ofWords (fun _ => imem) 0 := rfl
  rw [instrMemRead_eq ha]
  exact (memRead32_region hfind htext).trans (memRead32_ofWords _ hfind hoff)

theorem withText_data {a : Word} (ha : a < 0x1FFF) :
    (withText imem sim).memRead a = sim.memRead a :=
  memRead32_region (findRegion_data ha) rfl

/-- The data that both simulators load from. -/
theorem SameText.load (h : SameText imem sim i) {a : Word} (ha : a < 0x1FFF) :
    (cycles (withText imem sim) i).memRead a = (cycles sim i).memRead a := by
  unfold Sim.memRead
  rw [h.mem, h.mem']
  exact withText_data ha

/-- The word that both simulators execute. -/
theorem SameText.word (h : SameText imem sim i) (htext : InText (cycles sim i).current.pc)
    (hword : sim.memRead (cycles sim i).current.pc =
      instrMemRead imem (cycles sim i).current.pc) :
    wordAt (withText imem sim) i = wordAt sim i := by
  unfold wordAt Sim.memRead
  rw [h.mem, h.mem', h.current]
  exact (withText_fetch htext).trans hword.symm

namespace LoadedRun

variable (h : LoadedRun imem sim k)

include h

theorem inText (hi : i ≤ k) : InText (cycles sim i).current.pc :=
  ⟨(h.suits.executes i hi).aligned, (h.suits.executes i hi).low, (h.suits.executes i hi).high⟩

/-- Both simulators execute the same. -/
theorem sameText (i : Nat) (hi : i ≤ k + 1) : SameText imem sim i := by
  induction i with
  | zero => exact ⟨rfl, h.next, h.next, h.zero, rfl, rfl⟩
  | succ i ih =>
      have hi' : i ≤ k := by omega
      have hsame := ih (by omega)
      obtain ⟨x, hx, -⟩ := (h.suits.executes i hi').instr
      have hword := hsame.word (h.inText hi') (h.text i hi')
      have hzero' : (cycles (withText imem sim) i).current.regs 0 = 0 := by
        rw [hsame.current]
        exact hsame.zero
      have hcycle : cycles sim (i + 1) = (cycles sim i).follow x :=
        cycle_eq hsame.next hsame.zero hx
      have hcycle' : cycles (withText imem sim) (i + 1) = (cycles (withText imem sim) i).follow x :=
        cycle_eq hsame.next' hzero' ((congrArg decodeInstr hword).trans hx)
      have hregs : x.nextRegs (cycles (withText imem sim) i).memRead (cycles sim i).current.pc
          (cycles sim i).current.regs = x.nextRegs (cycles sim i).memRead
            (cycles sim i).current.pc (cycles sim i).current.regs := by
        refine Instr.nextRegs_congr fun rd rs1 imm hlw => hsame.load ?_
        subst hlw
        exact (h.suits.inData i hi' rd rs1 imm hx).2
      refine ⟨?_, ?_, ?_, ?_, ?_, ?_⟩
      · rw [hcycle, hcycle']
        unfold Sim.follow
        dsimp only
        rw [hsame.current, hregs]
      · rw [hcycle]
        rfl
      · rw [hcycle']
        rfl
      · rw [hcycle]
        exact Instr.nextRegs_zero _ _ hsame.zero x
      · rw [hcycle]
        exact hsame.mem
      · rw [hcycle']
        exact hsame.mem'

theorem wordAt_eq (hi : i ≤ k) : wordAt (withText imem sim) i = wordAt sim i :=
  (h.sameText i (by omega)).word (h.inText hi) (h.text i hi)

theorem current_eq (hi : i ≤ k + 1) :
    (cycles (withText imem sim) i).current = (cycles sim i).current :=
  (h.sameText i hi).current

/-- The program suits the pipeline with the text of the testbench. -/
theorem suits_withText : Suits (withText imem sim) k where
  executes i hi := by
    obtain ⟨haligned, hlow, hhigh, hinstr⟩ := h.suits.executes i hi
    have hpc := congrArg CpuState.pc (h.current_eq (i := i) (by omega))
    refine ⟨hpc ▸ haligned, hpc ▸ hlow, hpc ▸ hhigh, ?_⟩
    show ∃ x, decodeInstr (wordAt (withText imem sim) i) = some x ∧ _
    rw [h.wordAt_eq hi]
    exact hinstr
  inData i hi := by
    intro rd rs1 imm hlw
    rw [h.current_eq (by omega)]
    exact h.suits.inData i hi rd rs1 imm ((congrArg decodeInstr (h.wordAt_eq hi)).symm.trans hlw)
  loadUse i hi := by
    intro rd rs1 imm hrd hlw huse
    have hlw' := (congrArg decodeInstr (h.wordAt_eq (i := i) (by omega))).symm.trans hlw
    obtain ⟨x, hx, hr⟩ := huse
    have hx' := (congrArg decodeInstr (h.wordAt_eq (i := i + 1) (by omega))).symm.trans hx
    have hsafe := h.suits.loadUse i hi rd rs1 imm hrd hlw' ⟨x, hx', hr⟩
    rw [h.current_eq (by omega), withText_data (h.suits.inData i (by omega) rd rs1 imm hlw').2]
    exact hsafe
  shadow i hi := by
    rintro ⟨hbr, hbr', hjump⟩
    rw [h.wordAt_eq (by omega)] at hbr hbr'
    rw [h.current_eq (by omega), h.current_eq (by omega)] at hjump
    exact h.suits.shadow i hi ⟨hbr, hbr', hjump⟩

/-- The instruction of a word that is retired in the run with the text of the testbench. -/
theorem retirement {s : Top} {t : Nat} (hrun : SuitedRun imem s (withText imem sim) k)
    (hv : (s.run imem t).wb.instrRetired = true)
    (hk : Nat.count (fun u => (s.run imem u).wb.instrRetired = true) t ≤ k) :
    Retirement imem s sim (Nat.count (fun u => (s.run imem u).wb.instrRetired = true) t) t := by
  obtain ⟨hat, hpc, hinstr, hregs⟩ := hrun.retirement hv hk
  refine ⟨hat, ?_, hinstr.trans (h.wordAt_eq hk), ?_⟩
  · rw [hpc, h.current_eq (by omega)]
  · rw [hregs, h.current_eq (by omega)]

end LoadedRun

end Text

end SimpleCpu.RiscV
