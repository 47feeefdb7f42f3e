import SimpleCpu.Iss.Image
import SimpleCpu.Mips.IssMirror
import SimpleCpu.Mips.Lockstep

/-!
# Loading a program

A testbench and the simulator read one program from the same two files.  Each leaves the
addresses that the files do not name as they were, so the two memories differ:
`initImem_fetch` says where they agree.

No supported instruction is made of the bytes that `init_memory` leaves behind, and none
of them uses the text as data.  A run of supported instructions is therefore a run of the
simulator with the text of the testbench: `sameText`.
-/

namespace SimpleCpu.Mips

open SimpleCpu.Bits SimpleCpu.CoSim SimpleCpu.Iss SimpleCpu.Mips.Isa SimpleCpu.Mips.Iss

/-! ## The testbench -/

/-- `init_imem`, from the pairs of address and word that the two files hold. -/
def initImem (size : BitVec 32) (imem : BitVec 32 → BitVec 32)
    (words : List (BitVec 32 × BitVec 32)) : BitVec 32 → BitVec 32 :=
  loadWords (· >>> 2) size imem words

/-- `init_dmem`, for the first `count` words. -/
def initDmem (count : BitVec 32) (dmem : BitVec 32 → BitVec 32) : BitVec 32 → BitVec 32 :=
  fillWords count 0xefefefef dmem

/-- Files that the testbench loads to the end, with all words inside the instruction
memory. -/
structure Loadable (L : MemLayout) (words : List (BitVec 32 × BitVec 32)) : Prop where
  fits : words.length ≤ L.imemSize.toNat
  nonzero : ∀ p ∈ words, p.2 ≠ 0
  aligned : ∀ p ∈ words, p.1 &&& 3 = 0
  inText : ∀ p ∈ words, p.1 < L.textEnd

/-! ## What has been loaded -/

section Load

variable {L : MemLayout} {words : List (BitVec 32 × BitVec 32)} {a : BitVec 32}
  {imem dmem : BitVec 32 → BitVec 32} {s : Sim}

theorem lt_of_lt_textEnd (h : a < L.textEnd) : a < 0x1FFF := by
  have h₁ : a.toNat < L.textEnd.toNat := h
  have h₂ : L.textEnd.toNat ≤ 0x1FFF := L.text_below
  exact show a.toNat < 0x1FFF by omega

/-- The address of a word in the instruction memory. -/
def MemLayout.InText (L : MemLayout) (a : BitVec 32) : Prop := a &&& 3 = 0 ∧ a < L.textEnd

theorem MemLayout.InText.inRegion (h : L.InText a) : InRegion memRegions a :=
  ⟨h.1, _, findRegion_text (lt_of_lt_textEnd h.2)⟩

theorem Loadable.ok (h : Loadable L words) (p : BitVec 32 × BitVec 32) (hp : p ∈ words) :
    L.InText p.1 :=
  ⟨h.aligned p hp, h.inText p hp⟩

/-- Words in the instruction memory. -/
theorem stores_imem : Stores L.InText (fun (imem : BitVec 32 → BitVec 32) a => imem (a >>> 2))
    (storeWord (· >>> 2) L.imemSize) := by
  refine stores_storeWord (fun a ha => ?_) fun a b ha hb hidx => ?_
  · rw [← instrMemIndex_eq]
    exact L.text_inside a ha.2
  · have hbase : ∀ b : BitVec 32, dataMemIndex 0 b = b >>> 2 := fun b => by
      rw [dataMemIndex_eq, BitVec.ofNat_eq_ofNat, BitVec.sub_zero]
    exact dataMemIndex_inj ha.1 hb.1 (((hbase a).trans hidx).trans (hbase b).symm)

theorem fetch_eq (ha : L.InText a) : L.fetch imem a = imem (a >>> 2) := by
  unfold MemLayout.fetch instrMemReadAt
  rw [if_pos (L.text_inside a ha.2), instrMemIndex_eq]

theorem loadProgram_memRead (s : Sim) (words : List (BitVec 32 × BitVec 32)) :
    (loadProgram s words).memRead a = memRead32 memRegions (loadMem memRegions s.mem words) a := by
  unfold loadMem
  induction words generalizing s with
  | nil => rfl
  | cons p words ih => exact ih (s.memWrite p.1 p.2)

/-- The simulator has the words of `init_memory` where the files do not name the address. -/
theorem Loadable.memRead_other (h : Loadable L words) (ha : InRegion memRegions a)
    (hmem : a ∉ words.map Prod.fst) : (loadProgram initMemory words).memRead a = 0xefefefef := by
  rw [loadProgram_memRead, loadMem_other (fun p hp => (h.ok p hp).inRegion) ha hmem]
  exact memRead32_ef ha

/-- Testbench and simulator agree wherever the simulator has a word of the files. -/
theorem Loadable.initImem_fetch (h : Loadable L words) (ha : L.InText a)
    (hword : (loadProgram initMemory words).memRead a ≠ 0xefefefef) :
    (loadProgram initMemory words).memRead a = L.fetch (initImem L.imemSize imem words) a := by
  rw [fetch_eq ha, loadProgram_memRead]
  unfold initImem
  rw [loadWords_eq h.fits h.nonzero]
  refine ((stores_mem memRegions).mono fun _ => MemLayout.InText.inRegion).foldl_agree stores_imem
    h.ok ha (Or.inl ?_)
  by_contra hmem
  exact hword (h.memRead_other ha.inRegion hmem)

end Load

/-! ## The simulator with the text of the testbench -/

section Text

variable {L : MemLayout} {p : Instr → Bool} {imem dmem : BitVec 32 → BitVec 32} {sim : Sim}
  {x : Instr} {w : BitVec 32} {k : Nat}

/-- The simulator with the words of `imem` as its text. -/
def withText (imem : BitVec 32 → BitVec 32) (sim : Sim) : Sim :=
  sim.withMem fun i => if i = 0 then Memory.ofWords (fun _ => imem) i else sim.mem i

theorem mirrors_withText : Mirrors (withText imem sim) sim where
  sim := rfl
  data _ hi := if_neg hi

theorem fetch_withText {pc : BitVec 32} (ha : pc &&& 3 = 0) (hpc : pc < L.textEnd) :
    (withText imem sim).memRead pc = L.fetch imem pc := by
  have hfind := findRegion_text (lt_of_lt_textEnd hpc)
  have hzero : pc - 0 = pc := BitVec.sub_zero pc
  unfold Sim.memRead MemLayout.fetch instrMemReadAt
  rw [if_pos (L.text_inside pc hpc), instrMemIndex_eq,
    memRead32_region hfind (show (withText imem sim).mem 0 = Memory.ofWords (fun _ => imem) 0 from rfl),
    memRead32_ofWords _ hfind (by rwa [hzero]), hzero]

/-- A datapath that has loaded its memories agrees with the simulator but for the text. -/
theorem agrees_withText (hdata : ∀ addr : BitVec 32, addr &&& 3 = 0 → 0x2000 ≤ addr →
    addr < dataEnd → sim.memRead addr = L.read dmem addr) :
    L.Agrees imem dmem (withText imem sim) where
  text _ ha hpc := fetch_withText ha hpc
  data addr ha hlow hhigh := by
    have hlow' : 0x2000 ≤ addr.toNat := hlow
    rw [← hdata addr ha hlow hhigh]
    exact mirrors_withText.symm.data.memRead (by omega)

/-- The word of a supported instruction uses the memory that the instruction touches. -/
theorem Isa.Encodes.effectiveAddress_mem (h : Encodes w x) (hacc : accessesMem w = true)
    (regs : BitVec 5 → BitVec 32) : effectiveAddress regs w ∈ x.touched regs := by
  have hfield : isLoad (w >>> 26 &&& 0x3F) = true ∨ isStore (w >>> 26 &&& 0x3F) = true := by
    unfold accessesMem readsMem changesMem at hacc
    rw [Bool.or_eq_true, decide_eq_true_iff, decide_eq_true_iff, ← and_or_left] at hacc
    exact hacc.2
  rw [field_op] at hfield
  have hnone : ∀ o : BitVec 6, o = 0 ∨ o = 2 ∨ o = 3 ∨ iFun o ≠ none ∨ brnFun o ≠ none ∨
      o = 1 ∨ o = 6 ∨ o = 7 →
      ¬ (isLoad (o.setWidth 32) = true ∨ isStore (o.setWidth 32) = true) := by
    decide
  unfold effectiveAddress
  rw [field_op]
  cases h with
  | lw hop | sw hop =>
      rw [hop]
      rfl
  | r hop | sh hop => exact absurd hfield (hnone _ (by simp [hop]))
  | j hop | jal hop => exact absurd hfield (hnone _ (by simp [hop]))
  | i hf => exact absurd hfield (hnone _ (by simp [hf]))
  | b hf => exact absurd hfield (hnone _ (by simp [hf]))
  | bz hf =>
      have hop : op w = 1 ∨ op w = 6 ∨ op w = 7 := by
        unfold zFun at hf
        by_contra h
        rw [not_or, not_or] at h
        rw [if_neg h.2.1, if_neg h.2.2, if_neg h.1] at hf
        exact absurd hf nofun
      exact absurd hfield (hnone _ (by tauto))

/-! ## Runs -/

/-- The simulator and the one with the text of the testbench, after `i` cycles. -/
structure SameText (imem : BitVec 32 → BitVec 32) (sim : Sim) (i : Nat) : Prop where
  mirrors : Mirrors (cycles (withText imem sim) i) (cycles sim i)
  text : (cycles sim i).mem 0 = sim.mem 0
  text' : (cycles (withText imem sim) i).mem 0 = (withText imem sim).mem 0
  next : (cycles sim i).next = (cycles sim i).current
  aligned : (cycles sim i).current.pc &&& 3 = 0

/-- The text of the simulator is that of the testbench, where there is a program. -/
def AgreesText (L : MemLayout) (imem : BitVec 32 → BitVec 32) (sim : Sim) : Prop :=
  ∀ a : BitVec 32, a &&& 3 = 0 → a < L.textEnd → sim.memRead a ≠ 0xefefefef →
    sim.memRead a = L.fetch imem a

theorem Loadable.agreesText {words : List (BitVec 32 × BitVec 32)} (h : Loadable L words) :
    AgreesText L (initImem L.imemSize imem words) (loadProgram initMemory words) :=
  fun _ ha hal hword => h.initImem_fetch ⟨ha, hal⟩ hword

/-- What the simulator fetches is what the testbench has loaded. -/
theorem SameText.fetch {i : Nat} (h : SameText imem sim i) (htext : AgreesText L imem sim)
    (hpc : (cycles sim i).current.pc < L.textEnd)
    (hword : (cycles sim i).memRead (cycles sim i).current.pc ≠ 0xefefefef) :
    (cycles sim i).memRead (cycles sim i).current.pc = L.fetch imem (cycles sim i).current.pc ∧
      (cycles (withText imem sim) i).memRead (cycles (withText imem sim) i).current.pc =
        (cycles sim i).memRead (cycles sim i).current.pc := by
  have hfind := findRegion_text (lt_of_lt_textEnd hpc)
  have hsim : (cycles sim i).memRead (cycles sim i).current.pc =
      sim.memRead (cycles sim i).current.pc := memRead32_region hfind h.text
  have hwith : (cycles (withText imem sim) i).memRead (cycles sim i).current.pc =
      (withText imem sim).memRead (cycles sim i).current.pc := memRead32_region hfind h.text'
  have hfetch : (cycles sim i).memRead (cycles sim i).current.pc =
      L.fetch imem (cycles sim i).current.pc := by
    rw [hsim] at hword ⊢
    exact htext _ h.aligned hpc hword
  refine ⟨hfetch, ?_⟩
  rw [← h.mirrors.current_eq, hwith, fetch_withText h.aligned hpc, hfetch]

theorem decodeInstr_unloaded (h : decodeInstr w = some x) : w ≠ 0xefefefef := by
  rintro rfl
  have hnone : decodeInstr 0xefefefef = none := by decide
  rw [hnone] at h
  exact absurd h nofun

/-- One supported instruction. -/
theorem SameText.cycle {i : Nat} (h : SameText imem sim i) (htext : AgreesText L imem sim)
    (hx : Executes L p (cycles sim i) x) : SameText imem sim (i + 1) := by
  obtain ⟨-, hwith⟩ := h.fetch htext hx.inText (decodeInstr_unloaded hx.word)
  have henc := encodes_of_decodeInstr hx.word
  have hcur := h.mirrors.current_eq
  have hdata : accessesMem ((cycles sim i).memRead (cycles sim i).current.pc) = true →
      0x1FFF ≤ (effectiveAddress (cycles sim i).current.regs
        ((cycles sim i).memRead (cycles sim i).current.pc)).toNat := by
    intro hacc
    obtain ⟨hlow, -⟩ := hx.inData _ (henc.effectiveAddress_mem hacc _)
    have hlow' : 0x2000 ≤ (effectiveAddress _ _).toNat := hlow
    omega
  obtain ⟨hmirrors, hkeep⟩ := h.mirrors.cycle hwith rfl (by rwa [← hcur])
  obtain ⟨-, hkeep'⟩ := h.mirrors.symm.cycle rfl hwith hdata
  refine ⟨hmirrors, hkeep.trans h.text, hkeep'.trans h.text', rfl, ?_⟩
  rw [cycles, cycle_eq h.next hx.word]
  exact Instr.nextPc_aligned h.aligned _ x

/-- A run of supported instructions is a run of the simulator with the text of the
testbench. -/
theorem sameText (hnext : sim.next = sim.current) (ha : sim.current.pc &&& 3 = 0)
    (htext : AgreesText L imem sim) (hx : ∀ i < k, ∃ x, Executes L p (cycles sim i) x) (i : Nat)
    (hi : i ≤ k) : SameText imem sim i := by
  induction i with
  | zero => exact ⟨mirrors_withText, rfl, rfl, hnext, ha⟩
  | succ i ih =>
      obtain ⟨x, hx⟩ := hx i hi
      exact (ih (by omega)).cycle htext hx

/-- It executes the same instructions. -/
theorem SameText.executes {i : Nat} (h : SameText imem sim i) (htext : AgreesText L imem sim)
    (hx : Executes L p (cycles sim i) x) : Executes L p (cycles (withText imem sim) i) x := by
  obtain ⟨-, hwith⟩ := h.fetch htext hx.inText (decodeInstr_unloaded hx.word)
  have hcur := h.mirrors.current_eq
  refine ⟨?_, ?_, hx.inClass, ?_⟩
  · rw [← hcur]
    exact hx.inText
  · rw [hwith]
    exact hx.word
  · rw [← hcur]
    exact hx.inData

end Text

/-! ## The start of a test -/

section Start

variable {L : MemLayout} {words : List (BitVec 32 × BitVec 32)} {count : BitVec 32}

/-- `init_dmem` reaches the data region of the simulator. -/
def Covers (L : MemLayout) (count : BitVec 32) : Prop :=
  ∀ addr : BitVec 32, 0x2000 ≤ addr → addr < dataEnd →
    dataMemIndex L.dataSegBegin addr < count

theorem Loadable.data (h : Loadable L words) (hcount : Covers L count)
    (dmem : BitVec 32 → BitVec 32) {addr : BitVec 32} (ha : addr &&& 3 = 0)
    (hlow : 0x2000 ≤ addr) (hhigh : addr < dataEnd) :
    (loadProgram initMemory words).memRead addr = L.read (initDmem count dmem) addr := by
  have hmem : addr ∉ words.map Prod.fst := by
    intro hmem
    obtain ⟨q, hq, rfl⟩ := List.mem_map.mp hmem
    have htext : q.1.toNat < 0x1FFF := lt_of_lt_textEnd (h.inText q hq)
    have hlow' : 0x2000 ≤ q.1.toNat := hlow
    omega
  rw [h.memRead_other ⟨ha, _, findRegion_data hlow hhigh⟩ hmem]
  unfold MemLayout.read dataMemReadAt initDmem fillWords
  rw [if_pos (L.data_inside addr hlow hhigh), if_pos (hcount addr hlow hhigh)]

/-- A datapath whose memories have been filled and the simulator with its text. -/
theorem Loadable.lockstep (h : Loadable L words) (hcount : Covers L count)
    (imem dmem : BitVec 32 → BitVec 32) :
    Lockstep L imem { pc := 0, regs := fun _ => 0, mem := initDmem count dmem }
      (withText imem (loadProgram initMemory words)) := by
  have hmem : L.Agrees imem (initDmem count dmem)
      (withText imem (loadProgram initMemory words)) :=
    agrees_withText fun addr ha hlow hhigh => h.data hcount dmem ha hlow hhigh
  rw [loadProgram_withMem] at hmem ⊢
  exact
    { next := rfl
      zero := rfl
      regs := rfl
      mem := hmem
      pc := rfl
      aligned := by show (0 : BitVec 32) &&& 3 = 0; decide }

end Start

end SimpleCpu.Mips
