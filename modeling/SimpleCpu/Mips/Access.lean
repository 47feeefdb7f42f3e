import SimpleCpu.Iss.Bytes
import SimpleCpu.Mips.IssFrame

/-!
# Loads and stores of the MIPS simulator

The loads and stores of `execute_i` against the bytes of memory.

* `load_exact`: a load writes the extension of the bytes it addresses, and nothing else.
* `store_exact_iff`: a store writes four bytes whatever its size, so `SB` and `SH` clear the
  bytes behind those they address.
-/

namespace SimpleCpu.Mips.Iss

open SimpleCpu.Bits SimpleCpu.Iss SimpleCpu.Mips.Isa

/-! ## Encoding -/

def loadOp (op : BitVec 6) : Option LoadOp :=
  if op = 0x20 then some .lb
  else if op = 0x21 then some .lh
  else if op = 0x23 then some .lw
  else if op = 0x24 then some .lbu
  else if op = 0x25 then some .lhu
  else none

def storeOp (op : BitVec 6) : Option StoreOp :=
  if op = 0x28 then some .sb
  else if op = 0x29 then some .sh
  else if op = 0x2b then some .sw
  else none

/-- The five loads. -/
theorem loadOp_cases {o : BitVec 6} {op : LoadOp} (h : loadOp o = some op) :
    o = 0x20 ∧ op = .lb ∨ o = 0x21 ∧ op = .lh ∨ o = 0x23 ∧ op = .lw ∨ o = 0x24 ∧ op = .lbu ∨
      o = 0x25 ∧ op = .lhu := by
  have hrow : ∀ o : BitVec 6, ∀ op ∈ loadOp o,
      o = 0x20 ∧ op = .lb ∨ o = 0x21 ∧ op = .lh ∨ o = 0x23 ∧ op = .lw ∨ o = 0x24 ∧ op = .lbu ∨
        o = 0x25 ∧ op = .lhu := by
    decide
  exact hrow o op h

/-- The three stores. -/
theorem storeOp_cases {o : BitVec 6} {op : StoreOp} (h : storeOp o = some op) :
    o = 0x28 ∧ op = .sb ∨ o = 0x29 ∧ op = .sh ∨ o = 0x2b ∧ op = .sw := by
  have hrow : ∀ o : BitVec 6, ∀ op ∈ storeOp o,
      o = 0x28 ∧ op = .sb ∨ o = 0x29 ∧ op = .sh ∨ o = 0x2b ∧ op = .sw := by
    decide
  exact hrow o op h

/-- The address of a load. -/
def loadAddress (regs : BitVec 5 → BitVec 32) (w : BitVec 32) : LoadOp → BitVec 32
  | .lw => wordAddr regs (rs w) (imm16 w)
  | .lb | .lh | .lbu | .lhu => regs (rs w) + (imm16 w).signExtend 32

/-- The address of a store. -/
def storeAddress (regs : BitVec 5 → BitVec 32) (w : BitVec 32) : StoreOp → BitVec 32
  | .sw => wordAddr regs (rs w) (imm16 w)
  | .sb | .sh => regs (rs w) + (imm16 w).signExtend 32

/-! ## Loads -/

/-- The simulator with a value loaded by the word `w`, and nothing else changed. -/
def Sim.loaded (s : Sim) (w value : BitVec 32) : Sim :=
  let cpu : CpuState :=
    { s.current with
      pc := s.current.pc + 4
      regs := Function.update s.current.regs (rt w) value }
  { s with current := cpu, next := cpu, instrOpcode := w }

section Loads

variable {s : Sim} {w : BitVec 32}

/-- The word is of the format of immediates. -/
theorem decodeInstrType_of_access (h : (loadOp (op w)).isSome ∨ (storeOp (op w)).isSome) :
    decodeInstrType w = .i := by
  have hrow : ∀ o : BitVec 6, (loadOp o).isSome ∨ (storeOp o).isSome →
      ¬ o = 0 ∧ ¬ (o = 2 ∨ o = 3) := by
    decide
  obtain ⟨h0, h23⟩ := hrow (op w) h
  rw [decodeInstrType_eq, if_neg h0, if_neg h23]

theorem executeI_load_next (hs : s.next = s.current) {x : LoadOp} (hx : loadOp (op w) = some x)
    (hrt : rt w ≠ 0) :
    executeI s ((op w).setWidth 32) ((rs w).setWidth 32) ((rt w).setWidth 32)
        ((imm16 w).setWidth 32) =
      { s with next :=
        { s.current with
          pc := s.current.pc + 4
          regs := Function.update s.current.regs (rt w)
            (x.narrow 16 (s.memRead (loadAddress s.current.regs w x))) } } := by
  have hrt' : rt w ≠ 0#5 := hrt
  unfold executeI
  simp only [extend_imm16, reg_field, setReg_field, field_eq_zero, Sim.assign,
    CpuState.setPc, hs, if_neg hrt']
  generalize op w = o at hx
  rcases loadOp_cases hx with ⟨rfl, rfl⟩ | ⟨rfl, rfl⟩ | ⟨rfl, rfl⟩ | ⟨rfl, rfl⟩ | ⟨rfl, rfl⟩ <;>
    rfl

/-- A load writes what it makes of the word at its address. -/
theorem cycle_load (hs : s.next = s.current) (hw : s.memRead s.current.pc = w) {x : LoadOp}
    (hx : loadOp (op w) = some x) (hrt : rt w ≠ 0) :
    cycle s =
      s.loaded w (x.narrow 16 (s.memRead (loadAddress s.current.regs w x))) := by
  have htype : decodeInstrType w = .i := by
    refine decodeInstrType_of_access (.inl ?_)
    rw [hx]
    rfl
  refine cycle_of_dispatch hw htype ?_
  show decodeI _ w = _
  simp only [decodeI, field_op, field_rs, field_rt, field_imm16]
  exact executeI_load_next (s := { s with instrOpcode := w }) hs hx hrt

/-- A load whose bytes lie in a region writes their extension to `rt`, and changes nothing
else but the program counter. -/
theorem load_exact (hs : s.next = s.current) (hw : s.memRead s.current.pc = w) {x : LoadOp}
    (hx : loadOp (op w) = some x) (hrt : rt w ≠ 0)
    (hmem : ∃ r ∈ memRegions, r.HoldsBytes (loadAddress s.current.regs w x) x.size) :
    cycle s =
      s.loaded w (x.result (bytesAt memRegions s.mem (loadAddress s.current.regs w x))) := by
  obtain ⟨r, hr, hholds⟩ := hmem
  obtain ⟨b, hread, hb⟩ := (Simulator.memRegions_wellFormed .mips).memRead32_bytes
    hr x.size_pos hholds
  have hread' : s.memRead (loadAddress s.current.regs w x) =
      wordOfBytes (b 3) (b 2) (b 1) (b 0) := hread
  rw [cycle_load hs hw hx hrt, hread', LoadOp.narrow_16]
  exact congrArg (s.loaded w) (LoadOp.result_congr hb)

end Loads

/-- A word at the first address, and a word of data at the first one of the data region. -/
def accessProgram (w data : BitVec 32) : Sim :=
  loadProgram initMemory [(0, w), (0x2000, data)]

/-- `LB r1, 0x2001(r0)` of a negative byte. -/
theorem load_exact_byte :
    let s := accessProgram 0x80012001 0x0000F100
    cycle s = s.loaded 0x80012001 (LoadOp.lb.result (bytesAt memRegions s.mem 0x2001)) :=
  load_exact (s := accessProgram 0x80012001 0x0000F100) rfl (w := 0x80012001)
    (by decide +kernel) (x := .lb) (by decide +kernel) (by decide +kernel)
    ⟨_, List.mem_cons_of_mem _ List.mem_cons_self, by decide +kernel⟩

/-! ## Stores -/

section Stores

variable {s : Sim} {w : BitVec 32}

/-- The `n` bytes from `a` on are those of the value; every other byte, the registers, `HI`
and `LO` are as before. -/
structure StoreExact (s s' : Sim) (a : BitVec 32) (n : Nat) (value : BitVec 32) : Prop where
  mem : StoresBytes memRegions s.mem s'.mem a n value
  regs : s'.current.regs = s.current.regs
  hi : s'.current.hi = s.current.hi
  lo : s'.current.lo = s.current.lo

theorem executeI_store_next (hs : s.next = s.current) {x : StoreOp}
    (hx : storeOp (op w) = some x) :
    executeI s ((op w).setWidth 32) ((rs w).setWidth 32) ((rt w).setWidth 32)
        ((imm16 w).setWidth 32) =
      { s with
        mem := memWrite32 memRegions s.mem (storeAddress s.current.regs w x)
          (x.masked (s.current.regs (rt w)))
        next := { s.current with pc := s.current.pc + 4 } } := by
  unfold executeI
  simp only [extend_imm16, reg_field, Sim.assign, Sim.memWrite, CpuState.setPc, hs]
  generalize op w = o at hx
  rcases storeOp_cases hx with ⟨rfl, rfl⟩ | ⟨rfl, rfl⟩ | ⟨rfl, rfl⟩ <;> rfl

/-- A store writes four bytes at its address. -/
theorem cycle_store (hs : s.next = s.current) (hw : s.memRead s.current.pc = w) {x : StoreOp}
    (hx : storeOp (op w) = some x) :
    let cpu : CpuState := { s.current with pc := s.current.pc + 4 }
    cycle s =
      { s with
        current := cpu, next := cpu, instrOpcode := w
        mem := memWrite32 memRegions s.mem (storeAddress s.current.regs w x)
          (x.masked (s.current.regs (rt w))) } := by
  have htype : decodeInstrType w = .i := by
    refine decodeInstrType_of_access (.inr ?_)
    rw [hx]
    rfl
  refine cycle_of_dispatch hw htype ?_
  show decodeI _ w = _
  simp only [decodeI, field_op, field_rs, field_rt, field_imm16]
  exact executeI_store_next (s := { s with instrOpcode := w }) hs hx

/-- A store whose bytes lie in a region is exact where the bytes that follow in the region,
up to the end of a word from its address on, are zero already. -/
theorem store_exact_iff (hs : s.next = s.current) (hw : s.memRead s.current.pc = w)
    {x : StoreOp} (hx : storeOp (op w) = some x) {r : MemRegion} (hr : r ∈ memRegions)
    (hmem : r.HoldsBytes (storeAddress s.current.regs w x) x.size) :
    StoreExact s (cycle s) (storeAddress s.current.regs w x) x.size (s.current.regs (rt w)) ↔
      ∀ k, x.size ≤ k → k < 4 →
        r.HoldsByte (storeAddress s.current.regs w x + BitVec.ofNat 32 k) →
          bytesAt memRegions s.mem (storeAddress s.current.regs w x) k = 0 := by
  have hbytes := (Simulator.memRegions_wellFormed .mips).storesBytes_iff hr s.mem hmem
    (s.current.regs (rt w))
  rw [cycle_store hs hw hx]
  constructor
  · intro hexact
    exact hbytes.mp hexact.mem
  · intro hzero
    exact ⟨hbytes.mpr hzero, rfl, rfl, rfl⟩

end Stores

/-- `SB r0, 0x2000(r0)` before three bytes that are zero. -/
theorem store_exact_byte :
    let s := accessProgram 0xA0002000 0x000000FF
    StoreExact s (cycle s) 0x2000 1 0 :=
  (store_exact_iff (s := accessProgram 0xA0002000 0x000000FF) rfl (w := 0xA0002000)
    (by decide +kernel) (x := .sb) (by decide +kernel)
    (List.mem_cons_of_mem _ List.mem_cons_self) (by decide +kernel)).mpr
    fun k hlow hhigh _ => by
      have hk : k = 1 ∨ k = 2 ∨ k = 3 := by
        have hlow' : 1 ≤ k := hlow
        omega
      rcases hk with rfl | rfl | rfl <;> decide +kernel

/-- `SB r0, 0x2000(r0)` also clears the byte at `0x2001`. -/
theorem store_inexact_byte :
    ¬ ∀ (s : Sim) (w : BitVec 32) (x : StoreOp), s.next = s.current →
      s.memRead s.current.pc = w → storeOp (op w) = some x →
      (∃ r ∈ memRegions, r.HoldsBytes (storeAddress s.current.regs w x) x.size) →
      StoreExact s (cycle s) (storeAddress s.current.regs w x) x.size
        (s.current.regs (rt w)) := by
  intro h
  have hstore := h (accessProgram 0xA0002000 0xEFEFEFEF) 0xA0002000 .sb rfl (by decide +kernel)
    (by decide +kernel) ⟨_, List.mem_cons_of_mem _ List.mem_cons_self, by decide +kernel⟩
  exact absurd (hstore.mem.frame 0x2001 (by decide +kernel)) (by decide +kernel)

end SimpleCpu.Mips.Iss
