import SimpleCpu.Bits.Arithmetic
import SimpleCpu.RiscV.Access
import SimpleCpu.RiscV.HexGen.Generator

/-!
# Checked addresses and executed addresses

`check_ls_addr` and `check_j_addr` compute the address that a word is going to use before
the word is encoded.  Here that address is compared with the one the simulator uses when
it executes the word: `ls_agrees_iff` says when a load and a store use the checked
address, and `jumps_disagree` that no jump goes to the checked address.
-/

namespace SimpleCpu.RiscV.HexGen

open SimpleCpu.Bits SimpleCpu.HexGen SimpleCpu.Iss SimpleCpu.RiscV.Iss

/-- A word that is decoded is executed by the call. -/
theorem DecodesAs.executeWord_eq {w fields : BitVec 32} {t : InstrType} {execute : Sim → Sim}
    (hd : DecodesAs w t fields execute) (s : Sim) : executeWord s w = execute s := by
  unfold executeWord
  rw [hd.format]
  exact hd.call s

/-! ## Loads and stores -/

/-- The data entry of `MEM_REGIONS`. -/
def dataRegion : MemRegion := { start := memDataStart, size := memDataSize }

/-- The word accesses exactly `addr`, and all its bytes are data. -/
structure LsAgrees (s : Sim) (w addr : BitVec 32) : Prop where
  exact : access s w = some addr
  /-- A load takes the word there, whatever the memory. -/
  loads : decodeInstrType w = some .i → Isa.rd w ≠ 0 → ∀ m,
    (executeWord { s with mem := m } w).next.regs (Isa.rd w) = memRead32 memRegions m addr
  /-- A store writes the word there, and nothing else. -/
  stores : decodeInstrType w = some .s → (executeWord s w).mem =
    memWrite32 memRegions s.mem addr (s.current.regs (Isa.rs1 w))
  inside : ∀ k < 4, dataRegion.contains (addr + BitVec.ofNat 32 k) = true

/-- The `LW` that `gen_i_instr` encodes. -/
def lwWord (rd base : BitVec 5) (imm : BitVec 12) : BitVec 32 :=
  let a : IArgs := { opcode := 0x3, funct3 := LW &&& 0x7, rd, rs1 := base
                     imm := imm.setWidth 32 }
  a.word

/-- The `SW` that `gen_s_instr` encodes. -/
def swWord (rs base : BitVec 5) (imm : BitVec 12) : BitVec 32 :=
  let a : SbArgs := { funct3 := SW, rs1 := rs, rs2 := base, imm := imm.setWidth 32 }
  a.sWord

section LoadStore

variable {g : Gen} {base : BitVec 5} {imm : BitVec 12}

/-- What is accepted is the sum rounded down, inside the data region. -/
theorem checkLsAddr_fine (h : g.lsVerdict base (imm.setWidth 32) = .fine) :
    g.checkLsAddr base (imm.setWidth 32) =
        (g.regs base + imm.signExtend 32) &&& 0xFFFFFFFC ∧
      0 < (g.checkLsAddr base (imm.setWidth 32)).toNat ∧
      (g.checkLsAddr base (imm.setWidth 32)).toNat < 0x1FFF := by
  have hsize : memDataStart + memDataSize = 0x1FFF#32 := rfl
  have hdef : g.checkLsAddr base (imm.setWidth 32) =
      if 0#32 < (g.regs base + imm.signExtend 32) &&& 0xFFFFFFFC ∧
          (g.regs base + imm.signExtend 32) &&& 0xFFFFFFFC < 0x1FFF#32 then
        (g.regs base + imm.signExtend 32) &&& 0xFFFFFFFC
      else if 0x1FFF#32 < g.regs base then 2 else 0 := by
    unfold Gen.checkLsAddr
    rw [extend_immI, hsize]
    rfl
  unfold Gen.lsVerdict at h
  generalize g.checkLsAddr base (imm.setWidth 32) = addr at hdef h ⊢
  split at hdef
  next hin =>
      rw [hdef]
      exact ⟨rfl, hin.1, hin.2⟩
  next =>
      split at hdef
      next => rw [hdef] at h; exact absurd h (by decide)
      next => rw [hdef] at h; exact absurd h (by decide)

/-- `execute_i` does not align. -/
theorem access_lwWord (s : Sim) (rd base : BitVec 5) (imm : BitVec 12) :
    access s (lwWord rd base imm) = some (s.current.regs base + imm.signExtend 32) := by
  have hw : lwWord rd base imm = iWord ((0x03#7).setWidth 32) (imm.setWidth 32)
      (base.setWidth 32) ((2#3).setWidth 32) (rd.setWidth 32) := rfl
  have hd := iWord_decodesAs base rd 2#3 (Or.inr rfl : 0x03#7 = 0x13 ∨ 0x03#7 = 0x03)
    (imm.setWidth 32)
  obtain ⟨hf3, hop, hbase, -, himm⟩ := fieldsI_append _ _ _ _ hd.noCarry
  rw [hw]
  unfold access
  rw [hd.format]
  dsimp only
  rw [hf3, hop, hbase, himm, setWidth_setWidth_self imm (by decide)]
  unfold accessI
  rw [reg_field, extend_immI]
  rfl

/-- `execute_s` aligns, but takes bit 15 of the immediate for its sign. -/
theorem access_swWord (s : Sim) (rs base : BitVec 5) (imm : BitVec 12) :
    access s (swWord rs base imm) =
      some ((s.current.regs base + imm.setWidth 32) &&& 0xFFFFFFFC) := by
  have hw : swWord rs base imm = sWord 0x23 (imm.setWidth 32) (base.setWidth 32)
      (rs.setWidth 32) ((2#3).setWidth 32) := rfl
  have hd := sWord_decodesAs base rs 2#3 (imm.setWidth 32)
  obtain ⟨hf3, -, hbase, himm⟩ := fieldsS_append _ _ _ _ hd.noCarry
  rw [hw]
  unfold access
  rw [hd.format]
  dsimp only
  rw [hf3, hbase, himm, setWidth_setWidth_self imm (by decide)]
  unfold accessS
  rw [reg_field, extend_immS]
  rfl

/-- The load is the access. -/
theorem lwWord_agrees {s : Sim} {addr : BitVec 32} (rd : BitVec 5)
    (h : access s (lwWord rd base imm) = some addr)
    (hin : ∀ k < 4, dataRegion.contains (addr + BitVec.ofNat 32 k) = true) :
    LsAgrees s (lwWord rd base imm) addr := by
  have hd : DecodesAs (lwWord rd base imm) .i _ _ := iWord_decodesAs base rd 2#3
    (Or.inr rfl : 0x03#7 = 0x13 ∨ 0x03#7 = 0x03) (imm.setWidth 32)
  refine ⟨h, fun _ hrd m => ?_, fun ht => absurd (hd.format.symm.trans ht) nofun, hin⟩
  obtain ⟨-, -, -, hfield, -⟩ := fieldsI_append _ _ _ _ hd.noCarry
  rw [field_rd] at hfield
  have hrd' : Isa.rd (lwWord rd base imm) = rd := (setWidth_eq_iff (by decide) _ _).mp hfield
  rw [hrd'] at hrd ⊢
  have haddr : s.current.regs base + imm.signExtend 32 = addr :=
    Option.some.inj ((access_lwWord s rd base imm).symm.trans h)
  rw [hd.executeWord_eq, setWidth_setWidth_self imm (by decide), ← haddr, ← extend_immI,
    ← reg_field s.current]
  have hload : executeI { s with mem := m } ((2#3).setWidth 32) ((0x03#7).setWidth 32)
      (base.setWidth 32) (rd.setWidth 32) (imm.setWidth 32) =
      if rd.setWidth 32 = (0 : BitVec 32) then
        { s with mem := m }.assign (·.setPc (s.current.pc + 4))
      else { s with mem := m }.assign fun n => (n.setReg (rd.setWidth 32) (memRead32 memRegions m
        (s.current.reg (base.setWidth 32) + extend 11 20 (imm.setWidth 32)))).setPc
          (s.current.pc + 4) := rfl
  rw [hload, if_neg (mt (field_eq_zero rd).mp hrd)]
  show Function.update s.next.regs ((rd.setWidth 32).setWidth 5) _ rd = _
  rw [setWidth_setWidth_self rd (by decide)]
  exact Function.update_self ..

/-- The store is the access. -/
theorem swWord_agrees {s : Sim} {addr : BitVec 32} (rs : BitVec 5)
    (h : access s (swWord rs base imm) = some addr)
    (hin : ∀ k < 4, dataRegion.contains (addr + BitVec.ofNat 32 k) = true) :
    LsAgrees s (swWord rs base imm) addr := by
  have hd : DecodesAs (swWord rs base imm) .s _ _ := sWord_decodesAs base rs 2#3
    (imm.setWidth 32)
  refine ⟨h, fun ht => absurd (hd.format.symm.trans ht) nofun, fun _ => ?_, hin⟩
  obtain ⟨-, hfield, -, -⟩ := fieldsS_append _ _ _ _ hd.noCarry
  rw [field_rs1] at hfield
  have hrs : Isa.rs1 (swWord rs base imm) = rs := (setWidth_eq_iff (by decide) _ _).mp hfield
  have haddr : (s.current.regs base + imm.setWidth 32) &&& 0xFFFFFFFC = addr :=
    Option.some.inj ((access_swWord s rs base imm).symm.trans h)
  have hstore : (executeS s ((2#3).setWidth 32) (rs.setWidth 32) (base.setWidth 32)
      (imm.setWidth 32)).mem = memWrite32 memRegions s.mem
        ((s.current.reg (base.setWidth 32) + extend 15 16 (imm.setWidth 32)) &&& 0xFFFFFFFC)
        (s.current.reg (rs.setWidth 32)) := rfl
  rw [hd.executeWord_eq, setWidth_setWidth_self imm (by decide), hstore, extend_immS, reg_field,
    reg_field, haddr, hrs]

/-- A word address inside the data region has all its bytes there, but for the last. -/
theorem inside_iff {addr : BitVec 32} (h4 : addr.toNat % 4 = 0) (hlt : addr.toNat < 0x1FFF) :
    (∀ k < 4, dataRegion.contains (addr + BitVec.ofNat 32 k) = true) ↔ addr ≠ 0x1FFC := by
  have hbyte : ∀ k < 4, (dataRegion.contains (addr + BitVec.ofNat 32 k) = true ↔
      addr.toNat + k < 0x1FFF) := by
    intro k hk
    have hsum : (addr + BitVec.ofNat 32 k).toNat = addr.toNat + k := by
      rw [BitVec.toNat_add, BitVec.toNat_ofNat]
      omega
    rw [MemRegion.contains_iff (by decide), hsum]
    exact ⟨fun h => h.2, fun h => ⟨Nat.zero_le _, h⟩⟩
  constructor
  · intro h
    have h3 := (hbyte 3 (by decide)).mp (h 3 (by decide))
    rintro rfl
    exact absurd h3 (by decide)
  · intro hne k hk
    rw [hbyte k hk]
    have hne' : addr.toNat ≠ 0x1FFC := fun h => hne (BitVec.eq_of_toNat_eq h)
    omega

/-- Rounding down loses nothing exactly for a word address. -/
theorem lwWord_agrees_iff (h : g.lsVerdict base (imm.setWidth 32) = .fine) (rd : BitVec 5) :
    LsAgrees g.sim (lwWord rd base imm) (g.checkLsAddr base (imm.setWidth 32)) ↔
      (g.regs base + imm.signExtend 32) &&& 3 = 0 ∧
        (g.regs base + imm.signExtend 32) &&& 0xFFFFFFFC ≠ 0x1FFC := by
  obtain ⟨haddr, -, hlt⟩ := checkLsAddr_fine h
  rw [haddr] at hlt ⊢
  have hinside := inside_iff ((and_3_eq_zero_iff _).mp (and_not_3_aligned _)) hlt
  rw [← hinside]
  constructor
  · intro hagrees
    have hexact := hagrees.exact
    rw [access_lwWord] at hexact
    have heq : g.regs base + imm.signExtend 32 =
        (g.regs base + imm.signExtend 32) &&& 0xFFFFFFFC := Option.some.inj hexact
    refine ⟨?_, hagrees.inside⟩
    rw [heq]
    exact and_not_3_aligned _
  · intro ⟨h4, hin⟩
    refine lwWord_agrees rd ?_ hin
    rw [access_lwWord, and_not_3_of_aligned h4]
    rfl

/-- The two readings of the sign. -/
theorem signExtend_eq_setWidth_iff (base : BitVec 32) (imm : BitVec 12) :
    (base + imm.setWidth 32) &&& 0xFFFFFFFC = (base + imm.signExtend 32) &&& 0xFFFFFFFC ↔
      imm.msb = false := by
  have himm := imm.isLt
  constructor
  · intro h
    have hnat := congrArg BitVec.toNat h
    rw [and_not_3_toNat, and_not_3_toNat, BitVec.toNat_add, BitVec.toNat_add,
      BitVec.toNat_signExtend, BitVec.toNat_setWidth] at hnat
    cases hmsb : imm.msb with
    | false => rfl
    | true =>
        rw [hmsb, if_pos rfl] at hnat
        have hbase := base.isLt
        omega
  · intro hmsb
    rw [BitVec.signExtend_eq_setWidth_of_msb_false hmsb]

/-- The store goes to the checked address exactly when the two signs are the same. -/
theorem swWord_agrees_iff (h : g.lsVerdict base (imm.setWidth 32) = .fine) (rs : BitVec 5) :
    LsAgrees g.sim (swWord rs base imm) (g.checkLsAddr base (imm.setWidth 32)) ↔
      imm.msb = false ∧
        (g.regs base + imm.signExtend 32) &&& 0xFFFFFFFC ≠ 0x1FFC := by
  obtain ⟨haddr, -, hlt⟩ := checkLsAddr_fine h
  rw [haddr] at hlt ⊢
  have hinside := inside_iff ((and_3_eq_zero_iff _).mp (and_not_3_aligned _)) hlt
  rw [← hinside, ← signExtend_eq_setWidth_iff (g.regs base)]
  constructor
  · intro hagrees
    have hexact := hagrees.exact
    rw [access_swWord] at hexact
    exact ⟨Option.some.inj hexact, hagrees.inside⟩
  · intro ⟨heq, hin⟩
    refine swWord_agrees rs ?_ hin
    rw [access_swWord]
    exact congrArg some heq

/-- When the simulator uses the address that has been checked. -/
theorem ls_agrees_iff (h : g.lsVerdict base (imm.setWidth 32) = .fine) (rd rs : BitVec 5) :
    (LsAgrees g.sim (lwWord rd base imm) (g.checkLsAddr base (imm.setWidth 32)) ↔
      (g.regs base + imm.signExtend 32) &&& 3 = 0 ∧
        (g.regs base + imm.signExtend 32) &&& 0xFFFFFFFC ≠ 0x1FFC) ∧
    (LsAgrees g.sim (swWord rs base imm) (g.checkLsAddr base (imm.setWidth 32)) ↔
      imm.msb = false ∧ (g.regs base + imm.signExtend 32) &&& 0xFFFFFFFC ≠ 0x1FFC) :=
  ⟨lwWord_agrees_iff h rd, swWord_agrees_iff h rs⟩

/-- Register 0 with the immediate 8. -/
theorem ls_agrees_iff_word :
    LsAgrees (init false []).sim (lwWord 1 0 8) 8 ∧
      LsAgrees (init false []).sim (swWord 1 0 8) 8 := by
  have hfine : (init false []).lsVerdict 0 ((8#12).setWidth 32) = .fine := by decide
  have haddr : (init false []).checkLsAddr 0 ((8#12).setWidth 32) = 8 := by decide
  have h := ls_agrees_iff hfine 1 1
  rw [haddr] at h
  exact ⟨h.1.mpr (by decide), h.2.mpr (by decide)⟩

/-- A load with the immediate 5 is checked at 4 and reads at 5; a store with the immediate
-4 and the base 33 is checked at 28 and writes at 4124. -/
theorem ls_disagrees :
    ((init false []).lsVerdict 0 ((5#12).setWidth 32) = .fine ∧
      ¬ LsAgrees (init false []).sim (lwWord 1 0 5)
        ((init false []).checkLsAddr 0 ((5#12).setWidth 32))) ∧
    ((init true []).lsVerdict 1 ((0xFFC#12).setWidth 32) = .fine ∧
      ¬ LsAgrees (init true []).sim (swWord 1 1 0xFFC)
        ((init true []).checkLsAddr 1 ((0xFFC#12).setWidth 32))) :=
  ⟨⟨by decide, fun h => absurd h.exact (by decide)⟩,
    ⟨by decide, fun h => absurd h.exact (by decide)⟩⟩

/-! ## What is drawn has been accepted -/

theorem drawImm_ok {funct : BitVec 32} {r : Option (BitVec 5)} {rand rand' : List Nat}
    {rs1 : BitVec 5} {imm : BitVec 32}
    (h : g.drawImm funct r rand = .ok ((rs1, imm), rand')) :
    g.iVerdict funct rs1 imm = .fine ∧ ∃ n, imm = BitVec.ofNat 32 (n % 0xFFF) := by
  induction rand generalizing r with
  | nil =>
      unfold Gen.drawImm at h
      exact absurd h nofun
  | cons n rand ih =>
      cases r with
      | none => exact ih h
      | some rs =>
          unfold Gen.drawImm at h
          cases hv : g.iVerdict funct rs (BitVec.ofNat 32 (n % 0xFFF)) with
          | base =>
              rw [hv] at h
              exact ih h
          | imm =>
              rw [hv] at h
              exact ih h
          | fine =>
              rw [hv] at h
              obtain ⟨⟨rfl, rfl⟩, -⟩ := by simpa using h
              exact ⟨hv, n, rfl⟩

/-- An immediate that is drawn fits its field. -/
theorem drawn_imm (n : Nat) :
    BitVec.ofNat 32 (n % 0xFFF) = (BitVec.ofNat 12 (n % 0xFFF)).setWidth 32 := by
  apply BitVec.eq_of_toNat_eq
  rw [BitVec.toNat_setWidth, BitVec.toNat_ofNat, BitVec.toNat_ofNat]
  omega

/-- Every draw of `gen_i_instr` has been accepted. -/
theorem drawI_ok {rand rand' : List Nat} {a : IArgs} (h : g.drawI rand = .ok (a, rand')) :
    (∃ imm : BitVec 12, a.imm = imm.setWidth 32) ∧
      g.iVerdict (iFunct a.opcode a.funct3) a.rs1 a.imm = .fine ∧
      ∃ k < 8, a.opcode = ((opcodeValIType.getD k 0 >>> 4 &&& 0x1) <<< 4) ||| 0x3 ∧
        a.funct3 = opcodeValIType.getD k 0 &&& 0x7 := by
  unfold Gen.drawI at h
  split at h
  next functIdx rd rand =>
      obtain ⟨⟨⟨rs1, imm⟩, rand''⟩, hdraw, h⟩ := bind_ok h
      obtain ⟨rfl, -⟩ := Prod.mk.inj (Except.ok.inj h)
      obtain ⟨hfine, n, himm⟩ := drawImm_ok hdraw
      exact ⟨⟨_, himm.trans (drawn_imm n)⟩, hfine, functIdx % 8, Nat.mod_lt _ (by decide),
        rfl, rfl⟩
  next => exact absurd h nofun

/-- The entries of the table that have a check. -/
theorem opcodeValIType_checked : ∀ k < 8,
    let opcode := ((opcodeValIType.getD k 0 >>> 4 &&& 0x1) <<< 4) ||| 0x3
    let funct3 := opcodeValIType.getD k 0 &&& 0x7
    (iFunct opcode funct3 = LW → opcode = 0x3 ∧ funct3 = LW &&& 0x7) ∧
      (iFunct opcode funct3 = JALR → opcode = 0x3 ∧ funct3 = JALR &&& 0x7) := by
  decide

/-- Every load that `gen_i_instr` draws is an `lwWord` whose address has been accepted. -/
theorem drawI_lw {rand rand' : List Nat} {a : IArgs} (h : g.drawI rand = .ok (a, rand'))
    (hlw : iFunct a.opcode a.funct3 = LW) :
    ∃ imm : BitVec 12, a.imm = imm.setWidth 32 ∧ a.word = lwWord a.rd a.rs1 imm ∧
      g.lsVerdict a.rs1 (imm.setWidth 32) = .fine := by
  obtain ⟨⟨imm, himm⟩, hfine, k, hk, hopcode, hfunct3⟩ := drawI_ok h
  rw [hlw, himm] at hfine
  rw [hopcode, hfunct3] at hlw
  obtain ⟨hop, hf3⟩ := (opcodeValIType_checked k hk).1 hlw
  refine ⟨imm, himm, ?_, hfine⟩
  unfold IArgs.word
  rw [himm, hopcode, hop, hfunct3, hf3]
  rfl

theorem drawBase_ok {rs2 rs2' : BitVec 5} {rand rand' : List Nat} {imm imm' : BitVec 32}
    (himm : ∃ n, imm = BitVec.ofNat 32 (n % 0xFFF))
    (h : g.drawBase rs2 imm rand = .ok ((rs2', imm'), rand')) :
    g.lsVerdict rs2' imm' = .fine ∧ ∃ n, imm' = BitVec.ofNat 32 (n % 0xFFF) := by
  induction rand generalizing rs2 imm with
  | nil =>
      unfold Gen.drawBase at h
      split at h
      next hv =>
          obtain ⟨⟨rfl, rfl⟩, -⟩ := by simpa using h
          exact ⟨hv, himm⟩
      next => exact absurd h nofun
  | cons n rand ih =>
      unfold Gen.drawBase at h
      cases hv : g.lsVerdict rs2 imm with
      | base =>
          rw [hv] at h
          exact ih himm h
      | imm =>
          rw [hv] at h
          exact ih ⟨n, rfl⟩ h
      | fine =>
          rw [hv] at h
          obtain ⟨⟨rfl, rfl⟩, -⟩ := by simpa using h
          exact ⟨hv, himm⟩

/-- Every store that `gen_s_instr` draws is an `swWord` whose address has been accepted. -/
theorem drawS_sw {rand rand' : List Nat} {a : SbArgs} (h : g.drawS rand = .ok (a, rand')) :
    ∃ imm : BitVec 12, a.imm = imm.setWidth 32 ∧ a.sWord = swWord a.rs1 a.rs2 imm ∧
      g.lsVerdict a.rs2 (imm.setWidth 32) = .fine := by
  unfold Gen.drawS at h
  split at h
  next functIdx rs1 rs2 imm₀ rand =>
      obtain ⟨⟨⟨rs2', imm⟩, rand''⟩, hdraw, h⟩ := bind_ok h
      obtain ⟨rfl, -⟩ := Prod.mk.inj (Except.ok.inj h)
      obtain ⟨hfine, n, rfl⟩ := drawBase_ok ⟨_, rfl⟩ hdraw
      rw [drawn_imm] at hfine ⊢
      rw [Nat.mod_one]
      exact ⟨_, rfl, rfl, hfine⟩
  next => exact absurd h nofun

end LoadStore

/-! ## Jumps -/

/-- The text entry of `MEM_REGIONS`. -/
def textRegion : MemRegion := { start := memTextStart, size := memTextSize }

/-- The word jumps to `addr`, a slot of the program that is not taken. -/
structure JAgrees (g : Gen) (w addr : BitVec 32) : Prop where
  target : (executeWord g.sim w).next.pc = addr
  inText : textRegion.contains addr = true
  unused : g.pc (addr - memTextStart) = false

/-- The word that `gen_j_instr` encodes. -/
def jalWord (rd : BitVec 5) (imm : BitVec 32) : BitVec 32 :=
  let a : UjArgs := { opcode := 0x6F, rd, imm }
  a.jWord

/-- The `JALR` that `gen_i_instr` encodes. -/
def jalrWord (rd rs1 : BitVec 5) (imm : BitVec 12) : BitVec 32 :=
  let a : IArgs := { opcode := 0x3, funct3 := JALR &&& 0x7, rd, rs1, imm := imm.setWidth 32 }
  a.word

/-- What `gen_j_instr` draws. -/
def drawnOffset (n : Nat) : BitVec 32 := BitVec.ofNat 32 (n % 0x100000 + 1) <<< 2

section Jump

variable {g : Gen}

theorem checkJAddr_iff (imm funct : BitVec 32) (rs1 : BitVec 5) :
    g.checkJAddr imm funct rs1 = true ↔
      0x2000 < (g.jAddr imm funct rs1).toNat ∧ (g.jAddr imm funct rs1).toNat ≤ 0x3F00 ∧
        g.pc (g.jAddr imm funct rs1 - memTextStart) = false := by
  have hend : memTextStart + memTextSize - 0xFF = 0x3F00#32 := rfl
  unfold Gen.checkJAddr
  rw [hend]
  simp only [Bool.and_eq_true, decide_eq_true_iff, Bool.not_eq_true', and_assoc]
  exact Iff.rfl

/-- The address that has been accepted is one to jump to. -/
theorem accepted_inText {imm funct : BitVec 32} {rs1 : BitVec 5}
    (h : g.checkJAddr imm funct rs1 = true) :
    textRegion.contains (g.jAddr imm funct rs1) = true ∧
      g.pc (g.jAddr imm funct rs1 - memTextStart) = false := by
  obtain ⟨hlo, hhi, hpc⟩ := (checkJAddr_iff imm funct rs1).mp h
  refine ⟨?_, hpc⟩
  have hstart : textRegion.start.toNat = 0x2000 := rfl
  have hsize : textRegion.size.toNat = 0x1FFF := rfl
  rw [MemRegion.contains_iff (by decide), hstart, hsize]
  omega

theorem drawnOffset_even (n : Nat) : drawnOffset n &&& 1 = 0 := shl_and_1 _ (by decide)

/-- Where the simulator goes with the word of `gen_j_instr`. -/
theorem jalWord_target (s : Sim) (rd : BitVec 5) (n : Nat) :
    (executeWord s (jalWord rd (drawnOffset n))).next.pc =
      s.current.pc + (((drawnOffset n).setWidth 21).signExtend 32) := by
  have hd := jWord_decodesAs rd (drawnOffset_even n)
  have hw : jalWord rd (drawnOffset n) = jWord 0x6F (drawnOffset n) (rd.setWidth 32) := rfl
  rw [hw, hd.executeWord_eq, (executeJ_jumps ..).1, extend_immJ]

theorem jalrWord_target (s : Sim) (rd rs1 : BitVec 5) (imm : BitVec 12) :
    (executeWord s (jalrWord rd rs1 imm)).next.pc =
      s.current.regs rs1 + imm.signExtend 32 := by
  have hd := iWord_decodesAs rs1 rd 7#3 (Or.inr rfl : 0x03#7 = 0x13 ∨ 0x03#7 = 0x03)
    (imm.setWidth 32)
  have hw : jalrWord rd rs1 imm = iWord ((0x03#7).setWidth 32) (imm.setWidth 32)
      (rs1.setWidth 32) ((7#3).setWidth 32) (rd.setWidth 32) := rfl
  rw [hw, hd.executeWord_eq, setWidth_setWidth_self imm (by decide)]
  refine (executeI_jalr _ _ _ _).1.trans ?_
  rw [reg_field, extend_immI]

theorem drawnOffset_toNat (n : Nat) :
    (drawnOffset n).toNat = 4 * (n % 0x100000 + 1) := by
  unfold drawnOffset
  rw [BitVec.toNat_shiftLeft, BitVec.toNat_ofNat, Nat.shiftLeft_eq]
  omega

/-- The offset after the sign extension of `check_j_addr`. -/
theorem extend_drawnOffset (n : Nat) :
    ((drawnOffset n).getLsbD 20 = false ∧ extend 20 11 (drawnOffset n) = drawnOffset n) ∨
      ((drawnOffset n).getLsbD 20 = true ∧
        extend 20 11 (drawnOffset n) = ((drawnOffset n).setWidth 21).signExtend 32) := by
  cases hbit : (drawnOffset n).getLsbD 20 with
  | false => exact Or.inl ⟨rfl, extend_of_clear (by decide) _ hbit⟩
  | true => exact Or.inr ⟨rfl, extend_of_set (k := 20) (by decide) hbit⟩

/-- A shifted offset is not the offset. -/
theorem drawnOffset_ne (n : Nat) :
    ((drawnOffset n).setWidth 21).signExtend 32 ≠ extend 20 11 (drawnOffset n) <<< 1 := by
  have hn := drawnOffset_toNat n
  intro h
  rcases extend_drawnOffset n with ⟨hbit, hext⟩ | ⟨hbit, hext⟩
  · have hmsb : ((drawnOffset n).setWidth 21).msb = false := by
      rw [BitVec.msb_eq_getLsbD_last, BitVec.getLsbD_setWidth, hbit]
      rfl
    rw [hext, BitVec.signExtend_eq_setWidth_of_msb_false hmsb] at h
    have hnat := congrArg BitVec.toNat h
    rw [BitVec.toNat_setWidth, BitVec.toNat_setWidth, BitVec.toNat_shiftLeft,
      Nat.shiftLeft_eq, hn] at hnat
    omega
  · rw [hext] at h
    have hzero : ((drawnOffset n).setWidth 21).signExtend 32 = 0#32 :=
      eq_zero_of_shiftLeft _ one_ne_zero h.symm
    have hlow : (((drawnOffset n).setWidth 21).signExtend 32).getLsbD 20 = false := by
      rw [hzero]
      rfl
    simp [BitVec.getLsbD_signExtend, BitVec.getLsbD_setWidth, hbit, -BitVec.getLsbD_eq_getElem]
      at hlow

/-- `gen_j_instr` shifts an offset that is already one in bytes. -/
theorem jalWord_disagrees (g : Gen) (rd : BitVec 5) (n : Nat) :
    ¬ JAgrees g (jalWord rd (drawnOffset n)) (g.jAddr (drawnOffset n) 0 0) := by
  intro h
  have htarget := h.target
  rw [jalWord_target] at htarget
  have haddr : g.jAddr (drawnOffset n) 0 0 =
      g.sim.current.pc + extend 20 11 (drawnOffset n) <<< 1 := rfl
  rw [haddr] at htarget
  exact drawnOffset_ne n (by bv_omega)

/-- The sum of `JALR` is shifted as well. -/
theorem jalrWord_disagrees {g : Gen} {rs1 : BitVec 5} {imm : BitVec 12}
    (h : g.checkJAddr (imm.setWidth 32) JALR rs1 = true) (rd : BitVec 5) :
    ¬ JAgrees g (jalrWord rd rs1 imm) (g.jAddr (imm.setWidth 32) JALR rs1) := by
  intro hagrees
  have htarget := hagrees.target
  obtain ⟨hlo, -⟩ := (checkJAddr_iff _ _ _).mp h
  have haddr : g.jAddr (imm.setWidth 32) JALR rs1 = (g.regs rs1 + imm.signExtend 32) <<< 1 := by
    rw [← extend_immI]
    rfl
  rw [jalrWord_target] at htarget
  rw [haddr] at htarget
  rw [haddr, eq_zero_of_shiftLeft _ one_ne_zero htarget.symm] at hlo
  exact absurd hlo (by decide)

/-- No jump that is accepted goes to the address that was checked, though that address is
a slot of the program that is not taken. -/
theorem jumps_disagree (g : Gen) (rd rs1 : BitVec 5) (n : Nat) (imm : BitVec 12) :
    (g.checkJAddr (drawnOffset n) 0 0 = true →
      textRegion.contains (g.jAddr (drawnOffset n) 0 0) = true ∧
        g.pc (g.jAddr (drawnOffset n) 0 0 - memTextStart) = false ∧
        ¬ JAgrees g (jalWord rd (drawnOffset n)) (g.jAddr (drawnOffset n) 0 0)) ∧
    (g.checkJAddr (imm.setWidth 32) JALR rs1 = true →
      textRegion.contains (g.jAddr (imm.setWidth 32) JALR rs1) = true ∧
        g.pc (g.jAddr (imm.setWidth 32) JALR rs1 - memTextStart) = false ∧
        ¬ JAgrees g (jalrWord rd rs1 imm) (g.jAddr (imm.setWidth 32) JALR rs1)) := by
  constructor
  · intro h
    obtain ⟨htext, hpc⟩ := accepted_inText h
    exact ⟨htext, hpc, jalWord_disagrees g rd n⟩
  · intro h
    obtain ⟨htext, hpc⟩ := accepted_inText h
    exact ⟨htext, hpc, jalrWord_disagrees h rd⟩

/-- The generator once the register 1 holds 0x1100. -/
def withBase : Gen :=
  let s := (init false []).sim
  { init false [] with sim := { s with current := s.current.setReg 1 0x1100 } }

theorem jumps_disagree_withBase :
    ¬ JAgrees withBase (jalWord 2 8) 0x2010 ∧ ¬ JAgrees withBase (jalrWord 2 1 8) 0x2210 := by
  have hjal : withBase.checkJAddr (drawnOffset 1) 0 0 = true := by decide
  have hjalr : withBase.checkJAddr ((8#12).setWidth 32) JALR 1 = true := by decide
  obtain ⟨h, h'⟩ := jumps_disagree withBase 2 1 1 8
  exact ⟨(h hjal).2.2, (h' hjalr).2.2⟩

/-- With the offset 8, the address 0x2010 is checked, and 0x2008 is the target. -/
theorem jal_disagrees :
    (init false []).checkJAddr (drawnOffset 1) 0 0 = true ∧
      (init false []).jAddr (drawnOffset 1) 0 0 = 0x2010 ∧
      ¬ JAgrees (init false []) (jalWord 2 (drawnOffset 1))
        ((init false []).jAddr (drawnOffset 1) 0 0) :=
  ⟨by decide, by decide, fun h => absurd h.target (by decide)⟩

/-- Every `JALR` that `gen_i_instr` draws is a `jalrWord` whose address has been accepted. -/
theorem drawI_jalr {rand rand' : List Nat} {a : IArgs} (h : g.drawI rand = .ok (a, rand'))
    (hjalr : iFunct a.opcode a.funct3 = JALR) :
    ∃ imm : BitVec 12, a.imm = imm.setWidth 32 ∧ a.word = jalrWord a.rd a.rs1 imm ∧
      g.checkJAddr (imm.setWidth 32) JALR a.rs1 = true := by
  obtain ⟨⟨imm, himm⟩, hfine, k, hk, hopcode, hfunct3⟩ := drawI_ok h
  rw [hjalr, himm] at hfine
  rw [hopcode, hfunct3] at hjalr
  obtain ⟨hop, hf3⟩ := (opcodeValIType_checked k hk).2 hjalr
  refine ⟨imm, himm, ?_, ?_⟩
  · unfold IArgs.word
    rw [himm, hopcode, hop, hfunct3, hf3]
    rfl
  · have hcheck : (if g.checkJAddr (imm.setWidth 32) JALR a.rs1 then Verdict.fine
        else Verdict.base) = .fine := hfine
    cases hc : g.checkJAddr (imm.setWidth 32) JALR a.rs1 with
    | true => rfl
    | false =>
        rw [hc] at hcheck
        exact absurd hcheck (by decide)

/-- Every offset that `gen_j_instr` draws has been accepted. -/
theorem drawOffsetJ_ok {rand rand' : List Nat} {imm : BitVec 32}
    (h : g.drawOffsetJ rand = .ok (imm, rand')) :
    g.checkJAddr imm 0 0 = true ∧ ∃ n, imm = drawnOffset n := by
  induction rand with
  | nil =>
      unfold Gen.drawOffsetJ at h
      exact absurd h nofun
  | cons n rand ih =>
      unfold Gen.drawOffsetJ at h
      dsimp only at h
      split at h
      next hcheck =>
          obtain ⟨rfl, -⟩ := Prod.mk.inj (Except.ok.inj h)
          exact ⟨hcheck, n, rfl⟩
      next => exact ih h

end Jump

end SimpleCpu.RiscV.HexGen
