import SimpleCpu.RiscV.Branches
import SimpleCpu.RiscV.HexGen.Checks
import SimpleCpu.RiscV.Progress

/-!
# What one request of the RISC-V generator does

`request_ok` says all that a request can do: it may place a jump, and it places a word
that leads to a slot or out of the text.  `branch_agrees` is the target of a branch that
has been accepted.
-/

namespace SimpleCpu.RiscV.HexGen

open SimpleCpu.Bits SimpleCpu.HexGen SimpleCpu.Iss SimpleCpu.RiscV.Iss

/-! ## Slots -/

/-- Inside the text, the address is that of a slot. -/
def OnSlot (a : BitVec 32) : Prop := a - memTextStart < imemSize → a.toNat % 4 = 0

/-- The address is that of a slot of the text. -/
structure IsSlot (a : BitVec 32) : Prop where
  bound : a - memTextStart < imemSize
  aligned : a.toNat % 4 = 0

theorem onSlot_of_aligned {a : BitVec 32} (h : a.toNat % 4 = 0) : OnSlot a := fun _ => h

theorem add_aligned {a b : BitVec 32} (ha : a.toNat % 4 = 0) (hb : b.toNat % 4 = 0) :
    (a + b).toNat % 4 = 0 := by
  rw [BitVec.toNat_add]
  omega

theorem IsSlot.range {a : BitVec 32} (h : IsSlot a) : 0x2000 ≤ a.toNat ∧ a.toNat ≤ 0x3FFC := by
  have hbound : (a - memTextStart).toNat < 0x2000 := h.bound
  have hstart : memTextStart.toNat = 0x2000 := rfl
  have haligned := h.aligned
  rw [BitVec.toNat_sub, hstart] at hbound
  have ha := a.isLt
  omega

theorem isSlot_iff {a : BitVec 32} :
    IsSlot a ↔ 0x2000 ≤ a.toNat ∧ a.toNat < 0x4000 ∧ a.toNat % 4 = 0 := by
  constructor
  · intro h
    obtain ⟨hlo, hhi⟩ := h.range
    exact ⟨hlo, by omega, h.aligned⟩
  · rintro ⟨hlo, hhi, h4⟩
    refine ⟨?_, h4⟩
    show (a - memTextStart).toNat < 0x2000
    have hstart : memTextStart.toNat = 0x2000 := rfl
    rw [BitVec.toNat_sub, hstart]
    omega

/-- The text region holds every slot. -/
theorem IsSlot.find {a : BitVec 32} (h : IsSlot a) :
    findRegion a memRegions 0 = some (0, memTextStart) := by
  obtain ⟨hlo, hhi⟩ := h.range
  refine findRegion_of_contains ?_ _ _
  rw [MemRegion.contains_iff (by decide)]
  exact ⟨hlo, Nat.lt_of_le_of_lt hhi (by decide)⟩

/-! ## Placing a word -/

/-- The word `w` has been loaded and executed at the current address, and recorded for the
address `slot`. -/
structure Placed (g : Gen) (w slot : BitVec 32) (g' : Gen) : Prop where
  bound : slot - memTextStart < imemSize
  sim : g'.sim = cycle (g.loadInstrOpcode w).sim
  pc : g'.pc = Function.update g.pc (slot - memTextStart) true
  instr : g'.instr = Function.update g.instr (slot - memTextStart) w
  prev : g'.prevPc = g'.cur

/-- What is loaded at a slot is executed there. -/
theorem cycle_loaded {g : Gen} (h : IsSlot g.cur) (w : BitVec 32) :
    ∃ s : Sim, s.current = g.sim.current ∧
      cycle (g.loadInstrOpcode w).sim =
        { executeWord s w with current := (executeWord s w).next } := by
  have hread : (g.loadInstrOpcode w).sim.memRead (g.loadInstrOpcode w).sim.current.pc = w :=
    memRead32_memWrite32 h.find
  refine ⟨{ (g.loadInstrOpcode w).sim with instrOpcode := w }, rfl, ?_⟩
  unfold cycle
  rw [processInstruction_eq, hread]

/-- The address that the word leads to. -/
theorem Placed.cur_eq {g g' : Gen} {w slot : BitVec 32} (hp : Placed g w slot g')
    (h : IsSlot g.cur) :
    ∃ s : Sim, s.current = g.sim.current ∧ g'.cur = (executeWord s w).next.pc := by
  obtain ⟨s, hs, hcycle⟩ := cycle_loaded h w
  refine ⟨s, hs, ?_⟩
  show g'.sim.current.pc = _
  rw [hp.sim, hcycle]

namespace Gen

variable {g g' : Gen} {w : BitVec 32}

theorem updateCpu_ok {pc : BitVec 32} (h : g.updateCpu pc w = .ok g') :
    pc - memTextStart < imemSize ∧
      g' = { g with pc := Function.update g.pc (pc - memTextStart) true
                    instr := Function.update g.instr (pc - memTextStart) w
                    prevPc := g.cur } := by
  unfold updateCpu at h
  split at h
  next hpc => exact ⟨hpc, (Except.ok.inj h).symm⟩
  next => exact absurd h nofun

theorem run_ok (h : g.run = .ok g') : g' = { g with sim := cycle g.sim } := by
  unfold run at h
  split at h
  next => exact absurd h nofun
  next => exact (Except.ok.inj h).symm

/-- `make_room` tests the current slot and the one after it. -/
theorem hasRoom_ok {b : Bool} (h : g.hasRoom = .ok b) :
    (b = true ↔ g.pc (g.cur - memTextStart) = false ∧
      g.pc (g.cur - memTextStart + 4) = false) ∧ g.cur - memTextStart < imemSize := by
  obtain ⟨free, hfree, h⟩ := bind_ok h
  obtain ⟨hiff, hlt, -⟩ := Slots.isFree_ok hfree
  obtain rfl := Except.ok.inj h
  refine ⟨?_, hlt⟩
  -- an index inside the array is not the address that it is compared with
  have hne : g.cur - memTextStart ≠ memTextStart + memTextSize - 0xFF := by
    intro heq
    rw [heq] at hlt
    exact absurd hlt (by decide)
  rw [Bool.and_eq_true, hiff, bne_iff_ne]
  exact ⟨fun hb => hb.1, fun hpc => ⟨hpc, hne⟩⟩

/-- `make_room` returns at once, or it places one jump to two free slots. -/
theorem makeRoom_ok (h : g.makeRoom = .ok g') :
    (g.hasRoom = .ok true ∧ g' = g) ∨
    ∃ i n, g.hasRoom = .ok false ∧ g.pc.find roomIndices = .ok (some i) ∧
      Placed g (genJ g.cur (i + memTextStart) n) g.prevPc g' ∧ g'.instrGen = g.instrGen := by
  obtain ⟨room, hroom, h⟩ := bind_ok h
  cases room with
  | true => exact .inl ⟨hroom, (Except.ok.inj h).symm⟩
  | false =>
      obtain ⟨found, hfound, h⟩ := bind_ok h
      cases found with
      | none => exact absurd h nofun
      | some i =>
          dsimp only at h
          split at h
          next => exact absurd h nofun
          next n rand hrand =>
              obtain ⟨g₁, hrun, h⟩ := bind_ok h
              obtain rfl := run_ok hrun
              obtain ⟨hbound, rfl⟩ := updateCpu_ok h
              exact .inr ⟨i, n, hroom, hfound, ⟨hbound, rfl, rfl, rfl, rfl⟩, rfl⟩

/-- The end of a `gen_` function. -/
theorem emit_ok (h : g.emit w = .ok g') :
    Placed g w (if g.instrGen = 0 then memTextStart else g.prevPc) g' ∧
      g'.instrGen = g.instrGen + 1 := by
  obtain ⟨g₁, hrun, h⟩ := bind_ok h
  obtain rfl := run_ok hrun
  obtain ⟨g₂, hupdate, h⟩ := bind_ok h
  obtain ⟨hbound, rfl⟩ := updateCpu_ok hupdate
  obtain rfl := Except.ok.inj h
  exact ⟨⟨hbound, rfl, rfl, rfl, rfl⟩, rfl⟩

end Gen

/-! ## Branches -/

/-- What `gen_b_instr` draws for an offset. -/
def drawnOffsetB (n : Nat) : BitVec 32 := BitVec.ofNat 32 (n % 0xFFF) <<< 2

/-- The word that `gen_b_instr` encodes. -/
def branchWord (funct3 : BitVec 32) (rs1 rs2 : BitVec 5) (imm : BitVec 32) : BitVec 32 :=
  let a : SbArgs := { funct3, rs1, rs2, imm }
  a.bWord

theorem drawnOffsetB_toNat (n : Nat) : (drawnOffsetB n).toNat = 4 * (n % 0xFFF) := by
  unfold drawnOffsetB
  rw [BitVec.toNat_shiftLeft, BitVec.toNat_ofNat, Nat.shiftLeft_eq]
  omega

/-- The codes that are drawn are those of branches. -/
theorem brnFun_of_drawn : ∀ funct3 ∈ opcodeValBType, ∃ fn : BitVec 3, ∃ f,
    funct3 = fn.setWidth 32 ∧ Isa.brnFun fn = some f := by
  intro funct3 hmem
  simp only [opcodeValBType, List.mem_cons, List.not_mem_nil, or_false] at hmem
  rcases hmem with rfl | rfl | rfl | rfl | rfl | rfl
  · exact ⟨0, .beq, rfl, rfl⟩
  · exact ⟨1, .bne, rfl, rfl⟩
  · exact ⟨4, .blt, rfl, rfl⟩
  · exact ⟨6, .bltu, rfl, rfl⟩
  · exact ⟨5, .bge, rfl, rfl⟩
  · exact ⟨7, .bgeu, rfl, rfl⟩

/-- Where the simulator goes with the word of `gen_b_instr`. -/
theorem branchWord_target (s : Sim) {fn : BitVec 3} {f : Isa.BrnFun}
    (hf : Isa.brnFun fn = some f) (rs1 rs2 : BitVec 5) (n : Nat) :
    (executeWord s (branchWord (fn.setWidth 32) rs1 rs2 (drawnOffsetB n))).next.pc =
      if f.eval (s.current.regs rs1) (s.current.regs rs2) then
        s.current.pc + ((drawnOffsetB n).setWidth 13).signExtend 32
      else s.current.pc + 4 := by
  have heven : drawnOffsetB n &&& 1 = 0 := shl_and_1 _ (by decide)
  have hd := bWord_decodesAs rs2 rs1 fn heven
  have hw : branchWord (fn.setWidth 32) rs1 rs2 (drawnOffsetB n) =
      bWord 0x63 (drawnOffsetB n) (rs2.setWidth 32) (rs1.setWidth 32) (fn.setWidth 32) := rfl
  rw [hw, hd.executeWord_eq, executeB_eq s hf, reg_field, reg_field, extend_immB]
  rfl

section Branch

variable {g : Gen} {n : Nat}

theorem checkBrnAddr_ok {imm : BitVec 32} (h : g.checkBrnAddr imm ≠ -1) :
    g.checkBrnAddr imm = g.cur + extend 12 19 imm ∧
      0x2000 < (g.checkBrnAddr imm).toNat ∧ (g.checkBrnAddr imm).toNat ≤ 0x3F00 ∧
      g.pc (g.checkBrnAddr imm - memTextStart) = false := by
  have hend : memTextStart + memTextSize - 0xFF = 0x3F00#32 := rfl
  have hdef : g.checkBrnAddr imm =
      if 0x2000#32 < g.cur + extend 12 19 imm ∧ g.cur + extend 12 19 imm ≤ 0x3F00#32 ∧
        g.pc (g.cur + extend 12 19 imm - memTextStart) = false then g.cur + extend 12 19 imm
      else -1 := by
    unfold Gen.checkBrnAddr
    rw [hend]
    rfl
  split at hdef
  next hin =>
      rw [hdef]
      exact ⟨rfl, hin.1, hin.2.1, hin.2.2⟩
  next => exact absurd hdef h

/-- An offset that is accepted fits the format.  Bit 13 without bit 12 would lead behind
the text, and with bit 12 it is part of the sign. -/
theorem extend_of_accepted (hcur : IsSlot g.cur) (h : g.checkBrnAddr (drawnOffsetB n) ≠ -1) :
    extend 12 19 (drawnOffsetB n) = ((drawnOffsetB n).setWidth 13).signExtend 32 := by
  cases hbit : (drawnOffsetB n).getLsbD 12 with
  | true => exact extend_of_set (k := 12) (by decide) hbit
  | false =>
      have hext := extend_of_clear (by decide) 19 hbit
      obtain ⟨haddr, -, hhi, -⟩ := checkBrnAddr_ok h
      obtain ⟨hlo, htop⟩ := hcur.range
      have hn := drawnOffsetB_toNat n
      rw [haddr, hext, BitVec.toNat_add, hn] at hhi
      have hclear : (drawnOffsetB n).toNat / 2 ^ 12 % 2 = 0 := by
        have htest : (drawnOffsetB n).toNat.testBit 12 = false := hbit
        rw [Nat.testBit_eq_decide_div_mod_eq, decide_eq_false_iff_not] at htest
        omega
      have hlt : (drawnOffsetB n).toNat < 2 ^ 12 := by omega
      rw [hext, signExtend_of_lt hlt]

/-- A taken branch that has been accepted goes to the address that was checked, which is a
slot of the text that is not taken. -/
theorem branch_agrees {funct3 : BitVec 32} (hlo : 0x2000 ≤ g.cur.toNat)
    (hhi : g.cur.toNat < 0x4000) (h4 : g.cur.toNat % 4 = 0) (hfunct : funct3 ∈ opcodeValBType)
    (rs1 rs2 : BitVec 5) (htaken : g.decodeBrnResult rs1 rs2 funct3 = true)
    (h : g.checkBrnAddr (drawnOffsetB n) ≠ -1) :
    JAgrees g (branchWord funct3 rs1 rs2 (drawnOffsetB n)) (g.checkBrnAddr (drawnOffsetB n)) ∧
      IsSlot (g.checkBrnAddr (drawnOffsetB n)) ∧
      ∀ g', (g.loadInstrOpcode (branchWord funct3 rs1 rs2 (drawnOffsetB n))).run = .ok g' →
        g'.cur = g.checkBrnAddr (drawnOffsetB n) := by
  have hcur : IsSlot g.cur := isSlot_iff.mpr ⟨hlo, hhi, h4⟩
  obtain ⟨haddr, hlow, hhigh, hfree⟩ := checkBrnAddr_ok h
  obtain ⟨fn, f, rfl, hf⟩ := brnFun_of_drawn funct3 hfunct
  rw [Gen.decodeBrnResult_eq g hf] at htaken
  have htarget : ∀ s : Sim, s.current = g.sim.current →
      (executeWord s (branchWord (fn.setWidth 32) rs1 rs2 (drawnOffsetB n))).next.pc =
        g.checkBrnAddr (drawnOffsetB n) := by
    intro s hs
    rw [branchWord_target s hf, hs, haddr, extend_of_accepted hcur h]
    exact if_pos htaken
  have hslot : IsSlot (g.checkBrnAddr (drawnOffsetB n)) := by
    refine isSlot_iff.mpr ⟨by omega, by omega, ?_⟩
    rw [haddr, extend_of_accepted hcur h]
    exact add_aligned h4 (signExtend_shl_2_aligned _ (by decide))
  refine ⟨⟨htarget g.sim rfl, ?_, hfree⟩, hslot, ?_⟩
  · rw [MemRegion.contains_iff (by decide)]
    exact ⟨hslot.range.1, Nat.lt_of_le_of_lt hslot.range.2 (by decide)⟩
  · intro g' hrun
    obtain ⟨s, hs, hcycle⟩ :=
      cycle_loaded hcur (branchWord (fn.setWidth 32) rs1 rs2 (drawnOffsetB n))
    rw [Gen.run_ok hrun]
    show (cycle (g.loadInstrOpcode _).sim).current.pc = _
    rw [hcycle]
    exact htarget s hs

/-- The first `BEQ x0, x0` goes 8 bytes on. -/
theorem branch_agrees_beq :
    JAgrees (init false []) (branchWord BEQ 0 0 (drawnOffsetB 2)) 0x2008 := by
  have h := branch_agrees (g := init false []) (n := 2) (by decide) (by decide) (by decide)
    (List.mem_cons_self : BEQ ∈ opcodeValBType) 0 0 (by decide) (by decide)
  exact h.1

end Branch

/-! ## Where the words lead -/

/-- At the current address, the word leads to a slot or out of the text. -/
def Leads (g : Gen) (w : BitVec 32) : Prop :=
  ∀ s : Sim, s.current = g.sim.current → OnSlot (executeWord s w).next.pc

section Words

variable {g : Gen}

/-- A word that goes on. -/
theorem leads_of_advances {w : BitVec 32} (h4 : g.cur.toNat % 4 = 0)
    (h : ∀ s, Advances s (executeWord s w)) : Leads g w := by
  intro s hs
  rw [(h s).pc, hs]
  exact onSlot_of_aligned (add_aligned h4 rfl)

/-- The word of `gen_r_instr` goes on. -/
theorem leads_rWord {rand rand' : List Nat} {a : RArgs} (h : Gen.drawR rand = .ok (a, rand'))
    (h4 : g.cur.toNat % 4 = 0) : Leads g a.word := by
  have htable : ∀ k < 10,
      let funct := functValRType.getD k 0
      let f7 : BitVec 7 := (0x0#32 ||| ((funct >>> 3 &&& 0x1) <<< 5)).setWidth 7
      let f3 : BitVec 3 := (funct &&& 0x7).setWidth 3
      f7.setWidth 32 = 0x0#32 ||| ((funct >>> 3 &&& 0x1) <<< 5) ∧
        f3.setWidth 32 = funct &&& 0x7 ∧
        ((f7.setWidth 32 >>> 5 &&& 0x1) <<< 3) ||| f3.setWidth 32 =
          (funct.setWidth 4).setWidth 32 ∧
        funct.setWidth 4 ∉ [0x9#4, 0xa, 0xb, 0xc, 0xe, 0xf] := by
    decide
  unfold Gen.drawR at h
  split at h
  next functIdx rs1 rs2 rd rand =>
      obtain ⟨rfl, -⟩ := Prod.mk.inj (Except.ok.inj h)
      obtain ⟨hf7, hf3, hfunct, hmem⟩ := htable _ (Nat.mod_lt functIdx (by decide))
      show Leads g (rWord
        (0x0#32 ||| ((functValRType.getD (functIdx % 10) 0 >>> 3 &&& 0x1) <<< 5)) _ _
        (functValRType.getD (functIdx % 10) 0 &&& 0x7) _)
      rw [← hf7, ← hf3]
      refine leads_of_advances h4 fun s => ?_
      rw [(rWord_decodesAs _ _ _ _ _).executeWord_eq]
      exact executeR_advances s (fun hc => hmem hc.2) _ _ _ _ hfunct
  next => exact absurd h nofun

/-- A `JALR` that has passed the check leads to a slot. -/
theorem leads_jalrWord {rand rand' : List Nat} {a : IArgs} (h : g.drawI rand = .ok (a, rand'))
    (hjalr : iFunct a.opcode a.funct3 = JALR) : Leads g a.word := by
  obtain ⟨imm, -, hword, hcheck⟩ := drawI_jalr h hjalr
  intro s hs
  rw [hword, jalrWord_target, hs]
  obtain ⟨hlo, hhi, -⟩ := (checkJAddr_iff _ _ _).mp hcheck
  have haddr : g.jAddr (imm.setWidth 32) JALR a.rs1 =
      (g.sim.current.regs a.rs1 + imm.signExtend 32) <<< 1 := by
    rw [← extend_immI]
    rfl
  intro hbound
  have hbound' : (g.sim.current.regs a.rs1 + imm.signExtend 32 - memTextStart).toNat < 0x2000 :=
    hbound
  have hstart : memTextStart.toNat = 0x2000 := rfl
  rw [haddr] at hlo hhi
  generalize g.sim.current.regs a.rs1 + imm.signExtend 32 = x at hbound' hlo hhi
  have hx := x.isLt
  rw [BitVec.toNat_sub, hstart] at hbound'
  rw [BitVec.toNat_shiftLeft, Nat.shiftLeft_eq] at hlo hhi
  omega

/-- The words of `gen_i_instr` go on, but for the `JALR`, whose target is half of an address
that is in the text. -/
theorem leads_iWord {rand rand' : List Nat} {a : IArgs} (h : g.drawI rand = .ok (a, rand'))
    (h4 : g.cur.toNat % 4 = 0) : Leads g a.word := by
  by_cases hjalr : iFunct a.opcode a.funct3 = JALR
  · exact leads_jalrWord h hjalr
  · have htable : ∀ k < 8,
        let opcode := ((opcodeValIType.getD k 0 >>> 4 &&& 0x1) <<< 4) ||| 0x3
        let funct3 := opcodeValIType.getD k 0 &&& 0x7
        iFunct opcode funct3 ≠ JALR →
          (funct3.setWidth 3).setWidth 32 = funct3 ∧
            (opcode = 0x13 ∧ funct3.setWidth 3 ∉ [1#3, 5, 7] ∨
              opcode = 0x03 ∧ funct3.setWidth 3 ∉ [3#3, 6] ∧ funct3.setWidth 3 ≠ 7) := by
      decide
    obtain ⟨⟨imm, himm⟩, -, k, hk, hopcode, hfunct3⟩ := drawI_ok h
    rw [hopcode, hfunct3] at hjalr
    obtain ⟨hf3, hrow⟩ := htable k hk hjalr
    unfold IArgs.word
    rw [hfunct3, ← hf3]
    refine leads_of_advances h4 fun s => ?_
    rcases hrow with ⟨hop, hmem⟩ | ⟨hop, hmem, hne⟩
    · rw [hopcode, hop]
      have hd := iWord_decodesAs a.rs1 a.rd ((opcodeValIType.getD k 0 &&& 0x7).setWidth 3)
        (.inl rfl : 0x13#7 = 0x13 ∨ 0x13#7 = 0x03) a.imm
      exact hd.executeWord_eq s ▸ executeI_data_advances s hmem _ _ _
    · rw [hopcode, hop]
      have hd := iWord_decodesAs a.rs1 a.rd ((opcodeValIType.getD k 0 &&& 0x7).setWidth 3)
        (.inr rfl : 0x03#7 = 0x13 ∨ 0x03#7 = 0x03) a.imm
      exact hd.executeWord_eq s ▸ executeI_load_advances s hmem hne _ _ _

/-- The word of `gen_s_instr` goes on. -/
theorem leads_sWord {rand rand' : List Nat} {a : SbArgs} (h : g.drawS rand = .ok (a, rand'))
    (h4 : g.cur.toNat % 4 = 0) : Leads g a.sWord := by
  obtain ⟨imm, -, hword, -⟩ := drawS_sw h
  rw [hword]
  refine leads_of_advances h4 fun s => ?_
  have hd := sWord_decodesAs a.rs2 a.rs1 2#3 (imm.setWidth 32)
  exact hd.executeWord_eq s ▸ executeS_advances s (by decide) _ _ _

theorem drawOffsetB_ok {taken : Bool} {rand rand' : List Nat} {imm : BitVec 32}
    (h : g.drawOffsetB taken rand = .ok (imm, rand')) : ∃ n, imm = drawnOffsetB n := by
  induction rand with
  | nil =>
      unfold Gen.drawOffsetB at h
      exact absurd h nofun
  | cons n rand ih =>
      unfold Gen.drawOffsetB at h
      dsimp only at h
      split at h
      next => exact ih h
      next =>
          obtain ⟨rfl, -⟩ := Prod.mk.inj (Except.ok.inj h)
          exact ⟨n, rfl⟩

/-- The word of `gen_b_instr` goes on, or to a multiple of four further. -/
theorem leads_bWord {rand rand' : List Nat} {a : SbArgs} (h : g.drawB rand = .ok (a, rand'))
    (h4 : g.cur.toNat % 4 = 0) : Leads g a.bWord := by
  have htable : ∀ k < 6, opcodeValBType.getD k 0 ∈ opcodeValBType := by decide
  unfold Gen.drawB at h
  split at h
  next functIdx rs1 rs2 rand =>
      obtain ⟨⟨imm, rand''⟩, hdraw, h⟩ := bind_ok h
      obtain ⟨rfl, -⟩ := Prod.mk.inj (Except.ok.inj h)
      obtain ⟨n, rfl⟩ := drawOffsetB_ok hdraw
      obtain ⟨fn, f, hfn, hf⟩ :=
        brnFun_of_drawn _ (htable _ (Nat.mod_lt functIdx (by decide)))
      intro s hs
      have hword : SbArgs.bWord { funct3 := opcodeValBType.getD (functIdx % 6) 0
                                  rs1 := BitVec.ofNat 5 rs1, rs2 := BitVec.ofNat 5 rs2
                                  imm := drawnOffsetB n } =
          branchWord (fn.setWidth 32) (BitVec.ofNat 5 rs1) (BitVec.ofNat 5 rs2)
            (drawnOffsetB n) := by
        rw [hfn]
        rfl
      rw [hword, branchWord_target s hf, hs]
      refine onSlot_of_aligned ?_
      split
      next => exact add_aligned h4 (signExtend_shl_2_aligned _ (by decide))
      next => exact add_aligned h4 rfl
  next => exact absurd h nofun

/-- The word of `gen_u_instr` goes on. -/
theorem leads_uWord {rand rand' : List Nat} {a : UjArgs} (h : Gen.drawU rand = .ok (a, rand'))
    (h4 : g.cur.toNat % 4 = 0) : Leads g a.uWord := by
  have htable : ∀ k < 2, ((opcodeValUType.getD k 0).setWidth 7).setWidth 32 =
      opcodeValUType.getD k 0 ∧ (opcodeValUType.getD k 0 = Iss.LUI ∨
        opcodeValUType.getD k 0 = Iss.AUIPC) := by
    decide
  unfold Gen.drawU at h
  split at h
  next opcodeIdx rd imm rand =>
      obtain ⟨rfl, -⟩ := Prod.mk.inj (Except.ok.inj h)
      obtain ⟨hop, hrow⟩ := htable _ (Nat.mod_lt opcodeIdx (by decide))
      unfold UjArgs.uWord
      dsimp only
      rw [← hop] at hrow ⊢
      refine leads_of_advances h4 fun s => ?_
      have hd := uWord_decodesAs (BitVec.ofNat 5 rd) hrow (BitVec.ofNat 32 (imm % 0xFFFFF))
      exact hd.executeWord_eq s ▸ executeU_advances s hrow _ _
  next => exact absurd h nofun

/-- The word of `gen_j_instr` goes a multiple of four further. -/
theorem leads_jWord {rand rand' : List Nat} {a : UjArgs} (h : g.drawJ rand = .ok (a, rand'))
    (h4 : g.cur.toNat % 4 = 0) : Leads g a.jWord := by
  unfold Gen.drawJ at h
  split at h
  next rd rand =>
      obtain ⟨⟨imm, rand''⟩, hdraw, h⟩ := bind_ok h
      obtain ⟨rfl, -⟩ := Prod.mk.inj (Except.ok.inj h)
      obtain ⟨-, n, rfl⟩ := drawOffsetJ_ok hdraw
      intro s hs
      show OnSlot (executeWord s (jalWord (BitVec.ofNat 5 rd) (drawnOffset n))).next.pc
      rw [jalWord_target, hs]
      exact onSlot_of_aligned (add_aligned h4 (signExtend_shl_2_aligned _ (by decide)))
  next => exact absurd h nofun

end Words

/-! ## Requests -/

section Requests

variable {g g' : Gen}

theorem recordLs_ok {rs : BitVec 5} {imm : BitVec 32} (h : g.recordLs rs imm = .ok g') :
    ∃ ls, g' = { g with lsAddr := ls } := by
  unfold Gen.recordLs at h
  split at h
  next => exact ⟨_, (Except.ok.inj h).symm⟩
  next => exact absurd h nofun

theorem recordBr_ok {imm : BitVec 32} (h : g.recordBr imm = .ok g') :
    ∃ br, g' = { g with brAddr := br } := by
  unfold Gen.recordBr at h
  split at h
  next => exact ⟨_, (Except.ok.inj h).symm⟩
  next => exact absurd h nofun

/-- A word `w` has been placed that leads to a slot or out of the text. -/
structure Emitted (g : Gen) (w : BitVec 32) (g' : Gen) : Prop where
  placed : Placed g w (if g.instrGen = 0 then memTextStart else g.prevPc) g'
  leads : g.cur.toNat % 4 = 0 → Leads g w
  instrGen : g'.instrGen = g.instrGen + 1

/-- The arrays of addresses and the numbers that are left do not matter. -/
theorem emitted_of_emit {w : BitVec 32} {ls br : Nat → BitVec 32} {rand : List Nat}
    (hleads : g.cur.toNat % 4 = 0 → Leads g w)
    (h : { g with lsAddr := ls, brAddr := br, rand := rand }.emit w = .ok g') :
    Emitted g w g' := by
  obtain ⟨hp, hgen⟩ := Gen.emit_ok h
  exact ⟨⟨hp.bound, hp.sim, hp.pc, hp.instr, hp.prev⟩, hleads, hgen⟩

theorem genIInstr_ok (h : g.genIInstr = .ok g') : ∃ w, Emitted g w g' := by
  obtain ⟨⟨a, rand⟩, hdraw, h⟩ := bind_ok h
  dsimp only at h
  split at h
  next =>
      obtain ⟨g₂, hrecord, h⟩ := bind_ok h
      obtain ⟨ls, rfl⟩ := recordLs_ok hrecord
      exact ⟨_, emitted_of_emit (leads_iWord hdraw) h⟩
  next => exact ⟨_, emitted_of_emit (leads_iWord hdraw) h⟩

theorem genBInstr_ok (h : g.genBInstr = .ok g') : ∃ w, Emitted g w g' := by
  obtain ⟨⟨a, rand⟩, hdraw, h⟩ := bind_ok h
  dsimp only at h
  split at h
  next =>
      obtain ⟨g₂, hrecord, h⟩ := bind_ok h
      obtain ⟨br, rfl⟩ := recordBr_ok hrecord
      exact ⟨_, emitted_of_emit (leads_bWord hdraw) h⟩
  next => exact ⟨_, emitted_of_emit (leads_bWord hdraw) h⟩

/-- A request makes room, and then it places a word. -/
theorem request_ok {t : InstrType} (h : g.request t = .ok g') :
    ∃ g₁ w, g.makeRoom = .ok g₁ ∧ Emitted g₁ w g' := by
  obtain ⟨g₁, hroom, h⟩ := bind_ok h
  refine ⟨g₁, ?_⟩
  cases t with
  | r =>
      obtain ⟨⟨a, rand⟩, hdraw, h⟩ := bind_ok (h : g₁.genRInstr = .ok g')
      exact ⟨_, hroom, emitted_of_emit (leads_rWord hdraw) h⟩
  | i =>
      obtain ⟨w, he⟩ := genIInstr_ok h
      exact ⟨w, hroom, he⟩
  | s =>
      obtain ⟨⟨a, rand⟩, hdraw, h⟩ := bind_ok (h : g₁.genSInstr = .ok g')
      obtain ⟨g₂, hrecord, h⟩ := bind_ok h
      obtain ⟨ls, rfl⟩ := recordLs_ok hrecord
      exact ⟨_, hroom, emitted_of_emit (leads_sWord hdraw) h⟩
  | b =>
      obtain ⟨w, he⟩ := genBInstr_ok h
      exact ⟨w, hroom, he⟩
  | u =>
      obtain ⟨⟨a, rand⟩, hdraw, h⟩ := bind_ok (h : g₁.genUInstr = .ok g')
      exact ⟨_, hroom, emitted_of_emit (leads_uWord hdraw) h⟩
  | j =>
      obtain ⟨⟨a, rand⟩, hdraw, h⟩ := bind_ok (h : g₁.genJInstr = .ok g')
      exact ⟨_, hroom, emitted_of_emit (leads_jWord hdraw) h⟩

end Requests

end SimpleCpu.RiscV.HexGen
