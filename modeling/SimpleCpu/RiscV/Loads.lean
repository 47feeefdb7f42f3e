import SimpleCpu.Iss.Bytes
import SimpleCpu.RiscV.IssCorrect

/-!
# Loads of the RISC-V simulator

The five loads against the bytes of memory.  `LH` extends its sign with the constant that
`execute_i` has taken for the immediate, which leaves bits 12 to 14 of the half to be set
as well: `load_exact_iff`.
-/

namespace SimpleCpu.RiscV.Iss

open SimpleCpu.Bits SimpleCpu.Iss SimpleCpu.RiscV.Isa

/-! ## Encoding -/

def loadOp (funct3 : BitVec 3) : Option LoadOp :=
  if funct3 = 0 then some .lb
  else if funct3 = 1 then some .lh
  else if funct3 = 2 then some .lw
  else if funct3 = 4 then some .lbu
  else if funct3 = 5 then some .lhu
  else none

/-- The five loads. -/
theorem loadOp_cases {fn : BitVec 3} {op : LoadOp} (h : loadOp fn = some op) :
    fn = 0 ∧ op = .lb ∨ fn = 1 ∧ op = .lh ∨ fn = 2 ∧ op = .lw ∨ fn = 4 ∧ op = .lbu ∨
      fn = 5 ∧ op = .lhu := by
  have hrow : ∀ fn : BitVec 3, ∀ op ∈ loadOp fn,
      fn = 0 ∧ op = .lb ∨ fn = 1 ∧ op = .lh ∨ fn = 2 ∧ op = .lw ∨ fn = 4 ∧ op = .lbu ∨
        fn = 5 ∧ op = .lhu := by
    decide
  exact hrow fn op h

/-- The word is a load. -/
def IsLoad (w : BitVec 32) (op : LoadOp) : Prop :=
  opcode w = 0x03 ∧ loadOp (Isa.funct3 w) = some op

instance (w : BitVec 32) (op : LoadOp) : Decidable (IsLoad w op) :=
  inferInstanceAs (Decidable (_ ∧ _))

/-- The address of a load. -/
def loadAddress (regs : BitVec 5 → BitVec 32) (w : BitVec 32) : BitVec 32 :=
  regs (Isa.rs1 w) + (immI w).signExtend 32

/-! ## One cycle -/

/-- The simulator with a value loaded by the word `w`, and nothing else changed. -/
def Sim.loaded (s : Sim) (w value : BitVec 32) : Sim :=
  let cpu : CpuState :=
    { pc := s.current.pc + 4
      regs := Function.update s.current.regs (Isa.rd w) value }
  { s with current := cpu, next := cpu, instrOpcode := w }

section Cycle

variable {s : Sim}

theorem executeI_load_next (hs : s.next = s.current) {op : LoadOp} {fn : BitVec 3}
    (hf : loadOp fn = some op) {rd : BitVec 5} (hrd : rd ≠ 0#5) (rs1 : BitVec 5)
    (imm : BitVec 12) :
    executeI s (fn.setWidth 32) 0x03 (rs1.setWidth 32) (rd.setWidth 32) (imm.setWidth 32) =
      { s with next :=
        { pc := s.current.pc + 4
          regs := Function.update s.current.regs rd
            (op.narrow 20 (s.memRead (s.current.regs rs1 + imm.signExtend 32))) } } := by
  unfold executeI
  simp only [extend_immI, reg_field, setReg_field, field_eq_zero, Sim.assign,
    CpuState.setPc, hs, if_neg hrd]
  rcases loadOp_cases hf with ⟨rfl, rfl⟩ | ⟨rfl, rfl⟩ | ⟨rfl, rfl⟩ | ⟨rfl, rfl⟩ | ⟨rfl, rfl⟩ <;>
    rfl

/-- A load writes what it makes of the word at its address. -/
theorem cycle_load (hs : s.next = s.current) {w : BitVec 32} (hw : s.memRead s.current.pc = w)
    {op : LoadOp} (hload : IsLoad w op) (hrd : Isa.rd w ≠ 0) :
    cycle s = s.loaded w (op.narrow 20 (s.memRead (loadAddress s.current.regs w))) := by
  obtain ⟨hop, hf⟩ := hload
  refine cycle_of_dispatch hw (t := .i) ((decodeInstrType_eq hop).trans rfl) ?_
  show decodeI _ w = _
  simp only [decodeI, field_rd, field_rs1, field_funct3, field_immI, field_opcode, hop]
  exact executeI_load_next (s := { s with instrOpcode := w }) hs hf hrd _ _

/-- Two loaded values show in the register. -/
theorem loaded_inj {w x y : BitVec 32} : s.loaded w x = s.loaded w y ↔ x = y := by
  constructor
  · intro h
    have hreg := congrArg (fun t : Sim => t.current.regs (Isa.rd w)) h
    simpa [Sim.loaded] using hreg
  · rintro rfl
    rfl

/-- A load whose bytes lie in a region writes their extension to `rd`, and changes nothing
else but the program counter, unless it is an `LH` of a value below `-4096`. -/
theorem load_exact_iff (hs : s.next = s.current) {w : BitVec 32}
    (hw : s.memRead s.current.pc = w) {op : LoadOp} (hload : IsLoad w op)
    (hrd : Isa.rd w ≠ 0)
    (hmem : ∃ r ∈ memRegions, r.HoldsBytes (loadAddress s.current.regs w) op.size) :
    let bytes := bytesAt memRegions s.mem (loadAddress s.current.regs w)
    cycle s = s.loaded w (op.result bytes) ↔
      (op = .lh → -4096 ≤ (bytes 1 ++ bytes 0).toInt) := by
  intro bytes
  obtain ⟨r, hr, hholds⟩ := hmem
  obtain ⟨b, hread, hb⟩ := (Simulator.memRegions_wellFormed .riscV).memRead32_bytes
    hr op.size_pos hholds
  have hbytes : ∀ k < op.size, b k = bytes k := hb
  have hread' : s.memRead (loadAddress s.current.regs w) = wordOfBytes (b 3) (b 2) (b 1) (b 0) :=
    hread
  rw [cycle_load hs hw hload hrd, loaded_inj, hread', ← LoadOp.result_congr hbytes,
    LoadOp.narrow_20_iff]
  refine forall_congr' fun hlh => ?_
  subst hlh
  rw [hbytes 0 (by decide), hbytes 1 (by decide)]

end Cycle

/-- `LH x1, 0(x0)` at the first address, and a word of data at address 0. -/
def halfProgram (data : BitVec 32) : Sim :=
  loadProgram (initMemory false) [(0x2000, 0x00001083), (0, data)]

theorem load_exact_half :
    let s := halfProgram 0xF123
    cycle s = s.loaded 0x00001083 (LoadOp.lh.result (bytesAt memRegions s.mem 0)) :=
  (load_exact_iff (s := halfProgram 0xF123) rfl (w := 0x00001083) (by decide +kernel)
    (show IsLoad 0x00001083 .lh by decide +kernel) (by decide +kernel)
    ⟨_, List.mem_cons_of_mem _ List.mem_cons_self, by decide +kernel⟩).mpr
    (by decide +kernel)

/-- The half `0x8000` is loaded as `0xFFFFF000`. -/
theorem load_inexact_half :
    ¬ ∀ (s : Sim) (w : BitVec 32) (op : LoadOp), s.next = s.current →
      s.memRead s.current.pc = w → IsLoad w op → Isa.rd w ≠ 0 →
      (∃ r ∈ memRegions, r.HoldsBytes (loadAddress s.current.regs w) op.size) →
      cycle s =
        s.loaded w (op.result (bytesAt memRegions s.mem (loadAddress s.current.regs w))) := by
  intro h
  have hcycle := h (halfProgram 0x8000) 0x00001083 .lh rfl (by decide +kernel)
    (by decide +kernel) (by decide +kernel)
    ⟨_, List.mem_cons_of_mem _ List.mem_cons_self, by decide +kernel⟩
  have hreg : (cycle (halfProgram 0x8000)).current.regs 1 = 0xFFFF8000 := by
    rw [hcycle]
    decide +kernel
  exact absurd hreg (by decide +kernel)

end SimpleCpu.RiscV.Iss
