import SimpleCpu.Bits.Fields
import Mathlib.Logic.Function.Basic

/-!
# Instruction and data memories

`instr_mem` and `data_mem` of both MIPS processors, which differ in their sizes and in
the address at which the data begins.  An address outside an array reads as zero where
the source reads `x`.
-/

namespace SimpleCpu.Mips

open SimpleCpu.Bits

/-- Index of a word in `imem`. -/
def instrMemIndex (addr : BitVec 32) : BitVec 32 := (addr &&& 0xFFFFFFFC) >>> 2

/-- Read port of an `instr_mem` with `size` words. -/
def instrMemReadAt (size : BitVec 32) (imem : BitVec 32 → BitVec 32) (addr : BitVec 32) :
    BitVec 32 :=
  if instrMemIndex addr < size then imem (instrMemIndex addr) else 0

/-- Index of a word in a `dmem` whose segment begins at `dataSegBegin`. -/
def dataMemIndex (dataSegBegin addr : BitVec 32) : BitVec 32 :=
  ((addr - dataSegBegin) &&& ~~~0x3) >>> 2

/-- Read port of a `data_mem` with words `0` to `last`. -/
def dataMemReadAt (dataSegBegin last : BitVec 32) (dmem : BitVec 32 → BitVec 32)
    (addr : BitVec 32) : BitVec 32 :=
  if dataMemIndex dataSegBegin addr ≤ last then dmem (dataMemIndex dataSegBegin addr) else 0

/-- Write port of such a `data_mem`, with all four strobes set. -/
def dataMemWriteAt (dataSegBegin last : BitVec 32) (dmem : BitVec 32 → BitVec 32)
    (wrEn : Bool) (addr wrData : BitVec 32) : BitVec 32 → BitVec 32 :=
  let wrStrb := 0xFFFFFFFF#32
  if wrEn ∧ dataMemIndex dataSegBegin addr ≤ last then
    Function.update dmem (dataMemIndex dataSegBegin addr)
      ((wrData &&& wrStrb) ||| (~~~wrStrb &&& dataMemReadAt dataSegBegin last dmem addr))
  else dmem

section Laws

variable {base last : BitVec 32} {dmem : BitVec 32 → BitVec 32}

theorem instrMemIndex_eq (addr : BitVec 32) : instrMemIndex addr = addr >>> 2 :=
  and_not_mask_shr addr

theorem dataMemIndex_eq (addr : BitVec 32) : dataMemIndex base addr = (addr - base) >>> 2 :=
  and_not_mask_shr (addr - base)

theorem dataMemIndex_toNat (addr : BitVec 32) :
    (dataMemIndex base addr).toNat = (addr - base).toNat / 4 := by
  rw [dataMemIndex_eq, BitVec.toNat_ushiftRight, Nat.shiftRight_eq_div_pow]

/-- Addresses of one word have one index. -/
theorem dataMemIndex_align (hbase : base &&& 3 = 0) (addr : BitVec 32) :
    dataMemIndex base (addr &&& 0xFFFFFFFC) = dataMemIndex base addr := by
  have hlt := addr.isLt
  have hlow := and_not_3_toNat addr
  rw [and_3_eq_zero_iff] at hbase
  apply BitVec.eq_of_toNat_eq
  rw [dataMemIndex_toNat, dataMemIndex_toNat, BitVec.toNat_sub, BitVec.toNat_sub, hlow]
  omega

theorem dataMemReadAt_align (hbase : base &&& 3 = 0) (addr : BitVec 32) :
    dataMemReadAt base last dmem (addr &&& 0xFFFFFFFC) = dataMemReadAt base last dmem addr := by
  unfold dataMemReadAt
  rw [dataMemIndex_align hbase]

/-- Different words have different indices. -/
theorem dataMemIndex_inj {a b : BitVec 32} (ha : a &&& 3 = 0) (hb : b &&& 3 = 0)
    (h : dataMemIndex base a = dataMemIndex base b) : a = b := by
  rw [and_3_eq_zero_iff] at ha hb
  have hidx := congrArg BitVec.toNat h
  rw [dataMemIndex_toNat, dataMemIndex_toNat, BitVec.toNat_sub, BitVec.toNat_sub] at hidx
  apply BitVec.eq_of_toNat_eq
  omega

@[simp] theorem dataMemWriteAt_false (addr value : BitVec 32) :
    dataMemWriteAt base last dmem false addr value = dmem := by
  simp [dataMemWriteAt]

/-- With all strobes set a write replaces the word. -/
theorem dataMemWriteAt_true {addr : BitVec 32} (h : dataMemIndex base addr ≤ last)
    (value : BitVec 32) :
    dataMemWriteAt base last dmem true addr value =
      Function.update dmem (dataMemIndex base addr) value := by
  have hones : value &&& 0xFFFFFFFF#32 = value := BitVec.and_allOnes
  have hzero : ∀ x : BitVec 32, ~~~0xFFFFFFFF#32 &&& x = 0#32 := fun x => BitVec.zero_and
  simp only [dataMemWriteAt, if_true, h, and_self, hones, hzero, BitVec.or_zero]

theorem dataMemWriteAt_align (hbase : base &&& 3 = 0) (addr value : BitVec 32) :
    dataMemWriteAt base last dmem true (addr &&& 0xFFFFFFFC) value =
      dataMemWriteAt base last dmem true addr value := by
  unfold dataMemWriteAt
  rw [dataMemIndex_align hbase, dataMemReadAt_align hbase]

/-- Reading after a write inside the array. -/
theorem dataMemReadAt_write {a b : BitVec 32} (ha : a &&& 3 = 0) (hb : b &&& 3 = 0)
    (h : dataMemIndex base a ≤ last) (value : BitVec 32) :
    dataMemReadAt base last (dataMemWriteAt base last dmem true a value) b =
      if b = a then value else dataMemReadAt base last dmem b := by
  rw [dataMemWriteAt_true h]
  unfold dataMemReadAt
  by_cases hba : b = a
  · subst hba
    rw [if_pos h, if_pos rfl, Function.update_self]
  · have hne : dataMemIndex base b ≠ dataMemIndex base a := fun hidx =>
      hba (dataMemIndex_inj hb ha hidx)
    rw [if_neg hba, Function.update_of_ne hne]

end Laws

end SimpleCpu.Mips
