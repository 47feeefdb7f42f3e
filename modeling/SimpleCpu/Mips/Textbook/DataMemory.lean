import SimpleCpu.History.Aliased
import SimpleCpu.Mips.IssFrame
import SimpleCpu.Mips.Textbook.Top

/-!
# The data memory of the textbook pipeline

`DMemBank` against `mem_read_32` and `mem_write_32` of the simulator, on one sequence of
loads and stores.  The bank is indexed by a net of seven bits, so words that lie a multiple
of 128 apart share a cell.

* `clock_bank`, `loaded_eq_bankLoads`: the memory stage drives the bank once a clock, so a
  run loads what the bank returns.
* `issLoads_eq`: the simulator returns what was stored last at an address.
* `bank_agrees_iff`: the bank does too exactly where no store to another address of the cell
  comes between and leaves another value.
-/

namespace SimpleCpu.Mips.Textbook

open SimpleCpu.Bits SimpleCpu.History SimpleCpu.Iss

/-! ## The bank -/

/-- `finalAddress`: nine bits of the address, assigned to a net of seven. -/
def finalAddress (address : BitVec 32) : BitVec 7 := (address.extractLsb' 0 9).setWidth 7

theorem finalAddress_eq (address : BitVec 32) :
    finalAddress address = address.extractLsb' 0 7 := by
  apply BitVec.eq_of_getLsbD_eq
  intro i hi
  simp only [finalAddress, BitVec.getLsbD_setWidth, BitVec.getLsbD_extractLsb']
  simp [hi, show i < 9 by omega]

/-- `DMemBank`, with the output that it keeps. -/
structure DMemBank where
  memArray : BitVec 7 → BitVec 32
  readData : BitVec 32

/-- The inputs of one clock. -/
def DMemBank.drive (m : DMemBank) (memRead memWrite : Bool) (address writeData : BitVec 32) :
    DMemBank where
  memArray :=
    if memWrite then Function.update m.memArray (finalAddress address) writeData else m.memArray
  readData := if memRead then m.memArray (finalAddress address) else m.readData

/-- The bank of the pipeline. -/
def Top.bank (s : Top) : DMemBank := { memArray := s.memArray, readData := s.readData }

/-- The memory stage drives the bank, and passes on what it reads. -/
theorem clock_bank (imem : BitVec 32 → BitVec 32) (reset : Bool) (s : Top) :
    (s.clock imem reset).bank =
        s.bank.drive s.exMem.memRead s.exMem.memWrite s.exMem.result s.exMem.b ∧
      s.outputData =
        (s.bank.drive s.exMem.memRead s.exMem.memWrite s.exMem.result s.exMem.b).readData := by
  unfold Top.clock Top.bank Top.outputData DMemBank.drive
  rw [finalAddress_eq]
  exact ⟨rfl, rfl⟩

/-- `lw`, whatever the other register holds. -/
def DMemBank.lw (m : DMemBank) (address : BitVec 32) : BitVec 32 :=
  (m.drive true false address 0).readData

/-- `sw` -/
def DMemBank.sw (m : DMemBank) (address value : BitVec 32) : DMemBank :=
  m.drive false true address value

theorem lw_sw (m : DMemBank) (a b v : BitVec 32) :
    (m.sw a v).lw b = if finalAddress b = finalAddress a then v else m.lw b := by
  show Function.update m.memArray (finalAddress a) v (finalAddress b) = _
  by_cases h : finalAddress b = finalAddress a
  · rw [if_pos h, h]
    exact Function.update_self ..
  · rw [if_neg h]
    exact Function.update_of_ne h ..

/-! ## Sequences of operations -/

/-- The `lw` and `sw` that reach the data memory. -/
abbrev MemOp := Op (BitVec 32) (BitVec 32)

/-- What the bank returns for the loads. -/
def bankLoads (m : DMemBank) (ops : List MemOp) : List (BitVec 32) :=
  loads DMemBank.lw DMemBank.sw m ops

/-- What the simulator returns for the loads. -/
def issLoads (mem : Memory) (ops : List MemOp) : List (BitVec 32) :=
  loads (memRead32 Iss.memRegions) (memWrite32 Iss.memRegions) mem ops

/-- The value of the latest earlier store to the address of each load, or else the initial
one. -/
def latestLoads (init : BitVec 32 → BitVec 32) (ops : List MemOp) : List (BitVec 32) :=
  results (latest id init) [] ops

/-- The bank returns what was stored last in the cell. -/
theorem bankLoads_eq (m : DMemBank) (ops : List MemOp) :
    bankLoads m ops = results (latest finalAddress m.lw) [] ops :=
  loads_eq_results (D := fun _ => True) (fun m a b v _ _ => lw_sw m a b v)
    (fun _ _ => trivial) m

/-! ## The operations of a run -/

/-- What the memory stage asks of the bank. -/
def ExMem.memOps (r : ExMem) : List MemOp :=
  (if r.memRead then [.load r.result] else []) ++
    if r.memWrite then [.store r.result r.b] else []

/-- The operations that reach the bank in `t` clocks. -/
def Top.memOps (imem : BitVec 32 → BitVec 32) : Nat → Top → List MemOp
  | 0, _ => []
  | t + 1, s => s.exMem.memOps ++ Top.memOps imem t (s.clock imem false)

/-- The words that the memory stage loads in `t` clocks. -/
def Top.loaded (imem : BitVec 32 → BitVec 32) : Nat → Top → List (BitVec 32)
  | 0, _ => []
  | t + 1, s =>
      (if s.exMem.memRead then [s.outputData] else []) ++ Top.loaded imem t (s.clock imem false)

/-- The kept output plays no part in what is loaded. -/
theorem bankLoads_congr {m m' : DMemBank} (h : m.memArray = m'.memArray) (ops : List MemOp) :
    bankLoads m ops = bankLoads m' ops := by
  have hlw : m.lw = m'.lw := by
    funext address
    show m.memArray (finalAddress address) = m'.memArray (finalAddress address)
    rw [h]
  rw [bankLoads_eq, bankLoads_eq, hlw]

/-- The words loaded in a run are those the bank returns for the operations of the run. -/
theorem loaded_eq_bankLoads (imem : BitVec 32 → BitVec 32) (t : Nat) (s : Top) :
    s.loaded imem t = bankLoads s.bank (s.memOps imem t) := by
  induction t generalizing s with
  | zero => rfl
  | succ t ih =>
      obtain ⟨hclock, hout⟩ := clock_bank imem false s
      have hrest := ih (s.clock imem false)
      have hkeep : s.exMem.memWrite = false →
          (s.clock imem false).bank.memArray = s.bank.memArray := by
        intro hw
        rw [hclock, hw]
        rfl
      have hstore : s.exMem.memWrite = true →
          (s.clock imem false).bank.memArray = (s.bank.sw s.exMem.result s.exMem.b).memArray := by
        intro hw
        rw [hclock, hw]
        rfl
      unfold Top.loaded Top.memOps ExMem.memOps
      rw [hrest]
      cases hr : s.exMem.memRead with
      | false =>
          cases hw : s.exMem.memWrite with
          | false => exact bankLoads_congr (hkeep hw) _
          | true => exact bankLoads_congr (hstore hw) _
      | true =>
          have hload : s.outputData = s.bank.lw s.exMem.result := by
            rw [hout, hr]
            rfl
          rw [hload]
          cases hw : s.exMem.memWrite with
          | false => exact congrArg (s.bank.lw s.exMem.result :: ·) (bankLoads_congr (hkeep hw) _)
          | true => exact congrArg (s.bank.lw s.exMem.result :: ·) (bankLoads_congr (hstore hw) _)

/-! ## The simulator -/

/-- A word-aligned address of the simulator's data region. -/
structure InData (address : BitVec 32) : Prop where
  aligned : address &&& 3 = 0
  low : 0x2000 ≤ address
  high : address < 0x2000 + 0x100000

instance (address : BitVec 32) : Decidable (InData address) :=
  decidable_of_iff (address &&& 3 = 0 ∧ 0x2000 ≤ address ∧ address < 0x2000 + 0x100000)
    ⟨fun h => ⟨h.1, h.2.1, h.2.2⟩, fun h => ⟨h.aligned, h.low, h.high⟩⟩

theorem InData.found {a : BitVec 32} (h : InData a) :
    ∃ r, findRegion a Iss.memRegions 0 = some r := by
  have hmod := (and_3_eq_zero_iff a).mp h.aligned
  have hlow : 0x2000 ≤ a.toNat := h.low
  have hhigh : a.toNat < 0x102000 := h.high
  refine exists_findRegion Iss.memRegions_bounded
    ⟨{ start := 0x00002000, size := 0x00100000 }, by decide, hlow, ?_⟩
  show a.toNat + 4 ≤ 0x102000
  omega

/-- The simulator returns what was stored last at the address. -/
theorem issLoads_eq {ops : List MemOp} (hops : ∀ op ∈ ops, InData op.key) (mem : Memory) :
    issLoads mem ops = latestLoads (memRead32 Iss.memRegions mem) ops := by
  refine loads_eq_results (?_ : Keeps id InData _ _) hops mem
  intro m a b v ha hb
  obtain ⟨r, hr⟩ := ha.found
  exact memRead32_memWrite32_aligned ha.aligned hb.aligned hr

/-- From equal initial words, the bank returns what was stored last at each address, as
the simulator does, exactly where no store to another address of the cell comes between
and leaves another value. -/
theorem bank_agrees_iff {m : DMemBank} {mem : Memory} {ops : List MemOp}
    (hops : ∀ op ∈ ops, InData op.key)
    (hinit : ∀ op ∈ ops, m.lw op.key = memRead32 Iss.memRegions mem op.key) :
    (bankLoads m ops = latestLoads (memRead32 Iss.memRegions mem) ops ∧
        bankLoads m ops = issLoads mem ops) ↔
      NoClobber finalAddress (memRead32 Iss.memRegions mem) ops := by
  have hbank : bankLoads m ops =
      results (latest finalAddress (memRead32 Iss.memRegions mem)) [] ops := by
    rw [bankLoads_eq, results_latest_congr hinit]
  rw [issLoads_eq hops mem, and_self, hbank]
  exact results_latest_eq_iff ops

/-! ## The initial words -/

/-- The bank as `init_dmem` fills it. -/
def DMemBank.filled : DMemBank := { memArray := fun _ => 0xefefefef, readData := 0 }

/-- The bytes as `init_memory` fills them. -/
def filledMemory : Memory := fun _ _ => 0xef

/-- Every word of the data region starts with the same value on both sides. -/
theorem filled_lw {a : BitVec 32} (h : InData a) :
    DMemBank.filled.lw a = memRead32 Iss.memRegions filledMemory a := by
  obtain ⟨r, hr⟩ := h.found
  unfold memRead32
  rw [hr]
  show (0xefefefef : BitVec 32) = wordOfBytes 0xef 0xef 0xef 0xef
  decide

/-- Two words in two cells. -/
def twoWords : List MemOp :=
  [.store 0x2000 5, .store 0x2004 6, .load 0x2000, .load 0x2004, .load 0x2008]

theorem bank_agrees_twoWords :
    bankLoads .filled twoWords = latestLoads (memRead32 Iss.memRegions filledMemory) twoWords ∧
      bankLoads .filled twoWords = issLoads filledMemory twoWords := by
  have hops : ∀ op ∈ twoWords, InData op.key := by decide
  have hinit : ∀ op ∈ twoWords,
      DMemBank.filled.lw op.key = memRead32 Iss.memRegions filledMemory op.key :=
    fun op hop => filled_lw (hops op hop)
  exact (bank_agrees_iff hops hinit).mpr (NoClobber.of_separate (by decide))

/-- Two words of one cell: the second store is read back for the first. -/
def oneCell : List MemOp := [.store 0x2000 1, .store 0x2080 2, .load 0x2000]

theorem oneCell_clobbers :
    ¬ ∀ (m : DMemBank) (mem : Memory) (ops : List MemOp), (∀ op ∈ ops, InData op.key) →
      (∀ op ∈ ops, m.lw op.key = memRead32 Iss.memRegions mem op.key) →
        bankLoads m ops = latestLoads (memRead32 Iss.memRegions mem) ops ∧
          bankLoads m ops = issLoads mem ops := by
  intro h
  have hops : ∀ op ∈ oneCell, InData op.key := by decide
  have hagree := (h .filled filledMemory oneCell hops fun op hop => filled_lw (hops op hop)).1
  exact absurd hagree (by decide +kernel)

end SimpleCpu.Mips.Textbook
