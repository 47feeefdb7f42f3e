import SimpleCpu.Iss.Outside
import SimpleCpu.RiscV.IssFrame

/-!
# Simulators that differ in the text

A simulator that holds another program in the text region behaves in the same way as long
as it fetches the same words and uses no data from the text: `Mirrors.cycle`.
-/

namespace SimpleCpu.RiscV.Iss

open SimpleCpu.Iss

/-- `t` is `s` with another text. -/
structure Mirrors (s t : Sim) : Prop where
  current : t.current = s.current
  next : t.next = s.next
  runBit : t.runBit = s.runBit
  data : SameOutside 0 s.mem t.mem

section Mirrors

variable {s t : Sim} {w : BitVec 32}

/-- From another memory, a store writes the same value at the same address. -/
theorem executeS_mem_congr (s : Sim) (m : Memory) (funct3 rs1 rs2 imm : BitVec 32) :
    (executeS s funct3 rs1 rs2 imm).mem = s.mem ∧
        (executeS { s with mem := m } funct3 rs1 rs2 imm).mem = m ∨
      ∃ a value, accessS s funct3 rs2 imm = some a ∧
        (executeS s funct3 rs1 rs2 imm).mem = memWrite32 memRegions s.mem a value ∧
        (executeS { s with mem := m } funct3 rs1 rs2 imm).mem =
          memWrite32 memRegions m a value := by
  by_cases hb : funct3 = SB
  · subst hb
    exact Or.inr ⟨_, _, rfl, rfl, rfl⟩
  by_cases hh : funct3 = SH
  · subst hh
    exact Or.inr ⟨_, _, rfl, rfl, rfl⟩
  by_cases hw : funct3 = SW
  · subst hw
    exact Or.inr ⟨_, _, rfl, rfl, rfl⟩
  · unfold executeS
    simp only [hb, hh, hw, if_false, and_self, true_or]

theorem executeWord_mem_congr (s : Sim) (m : Memory) (w : BitVec 32) :
    (executeWord s w).mem = s.mem ∧ (executeWord { s with mem := m } w).mem = m ∨
      ∃ a value, access s w = some a ∧
        (executeWord s w).mem = memWrite32 memRegions s.mem a value ∧
        (executeWord { s with mem := m } w).mem = memWrite32 memRegions m a value := by
  by_cases ht : decodeInstrType w = some .s
  · have hexec : ∀ s, executeWord s w = decodeS s w := fun s => by
      unfold executeWord
      rw [ht]
      rfl
    have haccess : access s w = accessS s (w >>> 12 &&& 0x07) (w >>> 20 &&& 0x1F)
        (((w >>> 25 &&& 0x7F) <<< 5) ||| (w >>> 7 &&& 0x1F)) := by
      unfold access
      rw [ht]
    rw [hexec, hexec, haccess]
    exact executeS_mem_congr s m _ _ _ _
  · exact Or.inl ⟨not_not.mp (mt executeWord_store ht),
      not_not.mp (mt (executeWord_store (s := { s with mem := m })) ht)⟩

/-- With the word fetched, the two differ in memory alone. -/
theorem Mirrors.fetched (h : Mirrors s t) (w : BitVec 32) :
    { t with instrOpcode := w } = { { s with instrOpcode := w } with mem := t.mem } := by
  obtain ⟨hcurrent, hnext, hbit, -⟩ := h
  rw [← hcurrent, ← hnext, ← hbit]

/-- Both simulators execute the same word. -/
theorem Mirrors.cycle (h : Mirrors s t) (hs : s.memRead s.current.pc = w)
    (ht : t.memRead t.current.pc = w) (hdata : ∀ a ∈ access s w, Misses memRegions 0 a) :
    Mirrors (cycle s) (cycle t) ∧ (cycle t).mem 0 = t.mem 0 := by
  rw [cycle_eq_executeWord hs, cycle_eq_executeWord ht, h.fetched w]
  have hnext : (executeWord { { s with instrOpcode := w } with mem := t.mem } w).next =
      (executeWord { s with instrOpcode := w } w).next :=
    executeWord_next_congr fun a ha => h.data.memRead (hdata a ha)
  have hbit : (executeWord { { s with instrOpcode := w } with mem := t.mem } w).runBit =
      (executeWord { s with instrOpcode := w } w).runBit := by
    rw [executeWord_runBit, executeWord_runBit]
  rcases executeWord_mem_congr { s with instrOpcode := w } t.mem w with
    ⟨hs', ht'⟩ | ⟨a, value, ha, hs', ht'⟩
  · refine ⟨⟨hnext, hnext, hbit, ?_⟩, congrFun ht' 0⟩
    show SameOutside 0 (executeWord _ w).mem (executeWord _ w).mem
    rw [hs', ht']
    exact h.data
  · have hwrite := h.data.memWrite (v := value) (hdata a ha)
    refine ⟨⟨hnext, hnext, hbit, ?_⟩, (congrFun ht' 0).trans hwrite.2⟩
    show SameOutside 0 (executeWord _ w).mem (executeWord _ w).mem
    rw [hs', ht']
    exact hwrite.1

/-- A word that is loaded into the text is not seen from the other one. -/
theorem Mirrors.load (h : Mirrors s t) {a v start : BitVec 32}
    (hfind : findRegion a memRegions 0 = some (0, start)) : Mirrors (s.memWrite a v) t where
  current := h.current
  next := h.next
  runBit := h.runBit
  data := h.data.load hfind

end Mirrors

end SimpleCpu.RiscV.Iss
