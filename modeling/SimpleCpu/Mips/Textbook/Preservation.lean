import SimpleCpu.Mips.Textbook.Invariant

/-!
# A clock keeps the invariant

`Inv.clock`, whatever stalls: first what the stall signals mean, then the operands of an
instruction that leaves ID, then the address of the next fetch.
-/

namespace SimpleCpu.Mips.Textbook

open SimpleCpu.Mips.Isa SimpleCpu.Mips.Iss

/-! ## Stalls -/

section Stalls

variable {s : Top}

theorem isControl_zero : isControl (op 0) = false := by decide

/-- Nothing in ID waits for nothing. -/
theorem dataStall_of_empty (h : s.ifId.instr = 0) : s.dataStall false = true := by
  have hctl : s.control = { aluOp := some 0b000 } := by
    unfold Top.control controlUnit
    rw [if_pos h]
  unfold Top.dataStall
  rw [hctl]
  rfl

/-- An instruction that is not held depends on nothing ahead of it. -/
theorem not_dependsOn (h : s.dataStall false = true)
    (hty : s.control.isIType = true ∨ s.control.isRType = true) :
    dependsOn s.ifId.instr s.idEx.instr s.exeTypes = false ∧
      dependsOn s.ifId.instr s.exMem.instr s.memTypes = false ∧
      dependsOn s.ifId.instr s.memWb.instr s.wbTypes = false := by
  have hty' : (s.control.isIType || s.control.isRType) = true := by
    rw [Bool.or_eq_true]
    exact hty
  unfold Top.dataStall at h
  rw [hty', Bool.false_or, Bool.true_and, Bool.not_eq_true', Bool.or_eq_false_iff,
    Bool.or_eq_false_iff] at h
  exact ⟨h.1.1, h.1.2, h.2⟩

/-- Fetch goes on when no branch or jump is on its way. -/
theorem controlStall_eq_true_iff : s.controlStall false = true ↔
    isControl (op s.ifId.instr) = false ∧ isControl (op s.idEx.instr) = false ∧
      isControl (op s.exMem.instr) = false := by
  show (false || !(isControl (op s.ifId.instr) || isControl (op s.idEx.instr) ||
    isControl (op s.exMem.instr))) = true ↔ _
  rw [Bool.false_or, Bool.not_eq_true', Bool.or_eq_false_iff, Bool.or_eq_false_iff, and_assoc]

theorem Typed.clock (h : Typed s) (imem : BitVec 32 → BitVec 32) :
    Typed (s.clock imem false) where
  ex := by
    cases hds : s.dataStall false with
    | false =>
        refine Or.inl ?_
        show (if false || !s.dataStall false then ({} : IdEx) else s.issued false).instr = 0
        rw [hds]
        rfl
    | true =>
        refine Or.inr ?_
        show s.control.types = typesOf
          (if false || !s.dataStall false then ({} : IdEx) else s.issued false).instr
        rw [hds]
        exact controlUnit_types _ _
  mem := h.ex
  wb := h.mem

end Stalls

/-! ## One clock -/

section Clock

variable {imem : BitVec 32 → BitVec 32} {sim : Sim} {T : Track} {s : Top}

/-- An instruction does not change the registers of one that waits for nothing. -/
theorem Program.regsAt_keep (hp : Program imem sim) {i : Nat} {ird : BitVec 32} {types : Types}
    (hty : wordAt sim i = 0 ∨ types = typesOf (wordAt sim i))
    (hdep : dependsOn ird (wordAt sim i) types = false) {r : BitVec 5}
    (hr : r = rs ird ∨ r = rt ird) : regsAt sim (i + 1) r = regsAt sim i r := by
  obtain ⟨x, hx⟩ := hp.step i
  rw [hx.nextRegs]
  rcases hty with hzero | rfl
  · exact absurd hzero (hp.wordAt_ne_zero i)
  · exact nextRegs_of_not_dependsOn hx.encodes hx.inClass hdep hr _ _ _

namespace Inv

variable (h : Inv sim T s)

include h

/-- The register file delivers the operands of an instruction that waits for nothing. -/
theorem operands (hp : Program imem sim) (hid : T.id = true) (hds : s.dataStall false = true)
    (hty : s.control.isIType = true ∨ s.control.isRType = true) {r : BitVec 5}
    (hr : r = rs (wordAt sim T.iId) ∨ r = rt (wordAt sim T.iId)) :
    s.regFile r = regsAt sim T.iId r := by
  obtain ⟨hex, hmem, hwb⟩ := not_dependsOn hds hty
  rw [(h.idFull hid).instr] at hex hmem hwb
  have hwb' : regsAt sim T.iMem r = regsAt sim T.n r := by
    cases hT : T.wb with
    | false => simp [Track.iMem, hT]
    | true =>
        have hty := h.typed.wb
        rw [(h.wbFull hT).instr] at hty hwb
        simpa [Track.iMem, hT] using hp.regsAt_keep hty hwb hr
  have hmem' : regsAt sim T.iEx r = regsAt sim T.iMem r := by
    cases hT : T.mem with
    | false => simp [Track.iEx, hT]
    | true =>
        have hty := h.typed.mem
        rw [(h.memFull hT).instr] at hty hmem
        simpa [Track.iEx, hT] using hp.regsAt_keep hty hmem hr
  have hex' : regsAt sim T.iId r = regsAt sim T.iEx r := by
    cases hT : T.ex with
    | false => simp [Track.iId, hT]
    | true =>
        have hinstr : s.idEx.instr = wordAt sim T.iEx := (h.exFull hT).instr
        have hty := h.typed.ex
        rw [hinstr] at hty hex
        simpa [Track.iId, hT] using hp.regsAt_keep hty hex hr
  rw [h.regs, hex', hmem', hwb']

/-- What ID passes on. -/
theorem issued (hp : Program imem sim) (hid : T.id = true) (hds : s.dataStall false = true) :
    Passes (wordAt sim T.iId) (writtenAt sim T.iId) (pcAt sim T.iId)
      (pcAt sim (T.iId + 1)) (s.issued false).toMem := by
  obtain ⟨x, hx⟩ := hp.step T.iId
  have hin := h.idFull hid
  rw [hx.written, hx.nextPc]
  refine issued_passes hx.encodes hx.inClass hin (fun hj => ?_) _
  have hty : s.control.isIType = true ∨ s.control.isRType = true := by
    have hctl := control_eq hx.encodes hx.inClass hin
    rw [hctl]
    cases x with
    | r => exact Or.inr rfl
    | i f | b f => cases f <;> exact Or.inl rfl
    | j =>
        have henc := hx.encodes
        cases henc
        exact absurd rfl hj
    | sh | lw | sw | bz | jal => exact absurd hx.inClass nofun
  exact ⟨h.operands hp hid hds hty (Or.inl rfl), h.operands hp hid hds hty (Or.inr rfl)⟩

/-- The registers after write-back. -/
theorem regFileNext (hp : Program imem sim) : s.regFileNext = regsAt sim T.iMem := by
  have hclear : Function.update s.regFile 0 0 = regsAt sim T.n := by
    rw [h.regs]
    exact Function.update_eq_self_iff.mpr (hp.steady T.n).zero.symm
  have hnext : s.regFileNext =
      s.memWb.written.elim (regsAt sim T.n) fun w =>
        Function.update (regsAt sim T.n) w.1 w.2 := by
    unfold Top.regFileNext MemWb.written
    rw [hclear]
    cases s.memWb.regWrite <;> rfl
  rw [hnext]
  cases hT : T.wb with
  | true =>
      rw [(h.wbFull hT).written, Track.iMem, hT]
      refine Eq.trans ?_ (hp.regsAt_succ T.n).symm
      cases writtenAt sim T.n <;> rfl
  | false =>
      have hnone : s.memWb.written = none := by
        unfold MemWb.written
        rw [(h.wbEmpty hT).regWrite]
        rfl
      rw [hnone, Track.iMem, hT]
      rfl

/-- MEM redirects fetch only when nothing has been fetched behind it. -/
theorem not_redirects (hyoung : T.id = true ∨ T.ex = true) :
    (s.exMem.branchEnable || s.exMem.jump) = false := by
  cases hT : T.mem with
  | false => exact (h.memEmpty hT).stays
  | true =>
      refine (h.memFull hT).stays ?_
      rw [← (h.memFull hT).instr, Bool.eq_false_iff]
      intro hc
      obtain ⟨hex, hid, -⟩ := h.fetchMem hc
      rcases hyoung with hy | hy
      · rw [hy] at hid
        exact absurd hid nofun
      · rw [hy] at hex
        exact absurd hex nofun

/-- The address of the next fetch, when nothing stalls. -/
theorem pc_eq (hp : Program imem sim) (hcs : s.controlStall false = true) :
    s.pc = pcAt sim T.iIf := by
  obtain ⟨hid, hex, hmem⟩ := controlStall_eq_true_iff.mp hcs
  cases hT : T.id with
  | true =>
      rw [(h.idFull hT).instr] at hid
      rw [h.fetchId hT, ← hp.pcAt_succ _ hid, Track.iIf, hT]
      rfl
  | false =>
      rw [h.fetch hT hex hmem, Track.iIf, hT]
      rfl

/-- MEM redirects fetch to the instruction that follows. -/
theorem nextPc_eq (hds : s.dataStall false = true) (hcs : s.controlStall false = false)
    (hc : isControl (op s.exMem.instr) = true) : s.nextPc false = pcAt sim (T.iMem + 1) := by
  obtain ⟨-, -, hpc⟩ := h.fetchMem hc
  cases hT : T.mem with
  | false =>
      rw [(h.memEmpty hT).instr] at hc
      exact absurd hc nofun
  | true =>
      rw [← (h.memFull hT).next]
      unfold Top.nextPc
      rw [hds, hcs, hpc]
      rfl

/-- Fetch stays where it is. -/
theorem nextPc_of_stall (hyoung : T.id = true ∨ T.ex = true)
    (hstall : (s.dataStall false && s.controlStall false) = false) :
    s.nextPc false = s.pc := by
  unfold Top.nextPc
  rw [h.not_redirects hyoung, hstall]
  rfl

/-- Fetch goes on. -/
theorem nextPc_of_fetch (hds : s.dataStall false = true) (hcs : s.controlStall false = true) :
    s.nextPc false = 4 + s.pc := by
  obtain ⟨-, -, hmem⟩ := controlStall_eq_true_iff.mp hcs
  have hstays : (s.exMem.branchEnable || s.exMem.jump) = false := by
    cases hT : T.mem with
    | false => exact (h.memEmpty hT).stays
    | true =>
        refine (h.memFull hT).stays ?_
        rw [← (h.memFull hT).instr]
        exact hmem
  unfold Top.nextPc
  rw [hstays, hds, hcs]
  rfl

/-- ID is full when it waits for data. -/
theorem id_of_dataStall (hds : s.dataStall false = false) : T.id = true := by
  cases hT : T.id with
  | true => rfl
  | false =>
      rw [dataStall_of_empty (h.idEmpty hT)] at hds
      exact absurd hds nofun

/-- What EX gets. -/
theorem clock_ex (hp : Program imem sim) :
    (T.id = true ∧ s.dataStall false = true →
      Passes (wordAt sim T.iId) (writtenAt sim T.iId) (pcAt sim T.iId)
        (pcAt sim (T.iId + 1)) (s.clock imem false).idEx.toMem) ∧
    ((T.id && s.dataStall false) = false → InertMem (s.clock imem false).idEx.toMem) := by
  have hidEx : (s.clock imem false).idEx =
      if !s.dataStall false then {} else s.issued false := rfl
  rw [hidEx]
  cases hds : s.dataStall false with
  | false => exact ⟨fun hf => absurd hf.2 nofun, fun _ => ⟨rfl, rfl, rfl⟩⟩
  | true =>
      refine ⟨fun hf => h.issued hp hf.1 hds, fun he => issued_inert (h.idEmpty ?_)⟩
      rwa [Bool.and_true] at he

/-- What ID gets. -/
theorem clock_id (hp : Program imem sim) :
    ((T.clock (s.dataStall false) (s.controlStall false)).id = true →
      InId (s.clock imem false)
        (wordAt sim (T.clock (s.dataStall false) (s.controlStall false)).iId)
        (pcAt sim (T.clock (s.dataStall false) (s.controlStall false)).iId)) ∧
    ((T.clock (s.dataStall false) (s.controlStall false)).id = false →
      (s.clock imem false).ifId.instr = 0) := by
  have hifId : (s.clock imem false).ifId =
      if !s.dataStall false then s.ifId
      else if !s.controlStall false then {}
      else { instr := iMemBank imem s.pc, nextPc := 4 + s.pc } := rfl
  rw [Track.clock_iId]
  cases hds : s.dataStall false with
  | false =>
      rw [hds] at hifId
      refine ⟨fun hT => ?_, fun hT => ?_⟩
      · have hin := h.idFull hT
        exact ⟨(congrArg IfId.instr hifId).trans hin.instr,
          (congrArg IfId.nextPc hifId).trans hin.nextPc⟩
      · exact (congrArg IfId.instr hifId).trans (h.idEmpty hT)
  | true =>
      cases hcs : s.controlStall false with
      | false =>
          rw [hds, hcs] at hifId
          exact ⟨fun hT => absurd hT nofun, fun _ => congrArg IfId.instr hifId⟩
      | true =>
          rw [hds, hcs, h.pc_eq hp hcs, hp.fetched] at hifId
          refine ⟨fun _ => ⟨congrArg IfId.instr hifId, ?_⟩, fun hT => absurd hT nofun⟩
          rw [congrArg IfId.nextPc hifId]
          exact BitVec.add_comm _ _

/-- Behind a branch or a jump that leaves ID, fetch waits. -/
theorem clock_fetchEx (hc : isControl (op (s.clock imem false).idEx.instr) = true) :
    (T.clock (s.dataStall false) (s.controlStall false)).id = false ∧
      s.nextPc false = pcAt sim T.iId + 4 := by
  have hinstr : (s.clock imem false).idEx.instr =
      (if !s.dataStall false then ({} : IdEx) else s.issued false).instr := rfl
  rw [hinstr] at hc
  cases hds : s.dataStall false with
  | false =>
      rw [hds] at hc
      have hzero : isControl (op 0) = true := hc
      exact absurd hzero nofun
  | true =>
      rw [hds] at hc
      have hid' : isControl (op s.ifId.instr) = true := hc
      have hid : T.id = true := by
        rw [← Bool.not_eq_false]
        intro hT
        rw [h.idEmpty hT] at hid'
        exact absurd hid' nofun
      have hcs : s.controlStall false = false := by
        rw [Bool.eq_false_iff]
        intro hcs
        rw [(controlStall_eq_true_iff.mp hcs).1] at hid'
        exact absurd hid' nofun
      rw [h.nextPc_of_stall (Or.inl hid) (by rw [hcs, Bool.and_false]), hcs]
      exact ⟨rfl, h.fetchId hid⟩

/-- It still waits when that has moved on. -/
theorem clock_fetchMem (hc : isControl (op s.idEx.instr) = true) :
    (T.id && s.dataStall false) = false ∧
      (T.clock (s.dataStall false) (s.controlStall false)).id = false ∧
      s.nextPc false = pcAt sim T.iEx + 4 := by
  obtain ⟨hid, hpc⟩ := h.fetchEx hc
  have hex : T.ex = true := by
    rw [← Bool.not_eq_false]
    intro hT
    have hzero : s.idEx.instr = 0 := (h.exEmpty hT).instr
    rw [hzero] at hc
    exact absurd hc nofun
  have hds : s.dataStall false = true := dataStall_of_empty (h.idEmpty hid)
  have hcs : s.controlStall false = false := by
    rw [Bool.eq_false_iff]
    intro hcs
    rw [(controlStall_eq_true_iff.mp hcs).2.1] at hc
    exact absurd hc nofun
  rw [h.nextPc_of_stall (Or.inr hex) (by rw [hcs, Bool.and_false]), hid, hds, hcs]
  exact ⟨rfl, rfl, hpc⟩

/-- From MEM it sends fetch to the instruction that follows it. -/
theorem clock_fetch (hT : (T.clock (s.dataStall false) (s.controlStall false)).id = false)
    (hex : isControl (op (s.clock imem false).idEx.instr) = false)
    (hmem : isControl (op s.idEx.instr) = false) :
    s.nextPc false =
      pcAt sim (T.clock (s.dataStall false) (s.controlStall false)).iId := by
  cases hds : s.dataStall false with
  | false =>
      have hid := h.id_of_dataStall hds
      rw [hds] at hT
      have hid' : T.id = false := hT
      rw [hid] at hid'
      exact absurd hid' nofun
  | true =>
      have hcs : s.controlStall false = false := by
        rw [hds] at hT
        exact hT
      have hinstr : (s.clock imem false).idEx.instr =
          (if !s.dataStall false then ({} : IdEx) else s.issued false).instr := rfl
      rw [hinstr, hds] at hex
      have hc : isControl (op s.exMem.instr) = true := by
        rw [← Bool.not_eq_false]
        intro hc
        rw [controlStall_eq_true_iff.mpr ⟨hex, hmem, hc⟩] at hcs
        exact absurd hcs nofun
      obtain ⟨hex', hid', -⟩ := h.fetchMem hc
      have hmem' : T.mem = true := by
        rw [← Bool.not_eq_false]
        intro hT
        rw [(h.memEmpty hT).instr] at hc
        exact absurd hc nofun
      rw [h.nextPc_eq hds hcs hc, Track.clock_iId]
      simp [Track.iIf, Track.iId, Track.iEx, hex', hid', hmem']

/-- The addresses beside the stages move as the stages do. -/
theorem clock_pcId (hp : Program imem sim)
    (hT : (T.clock (s.dataStall false) (s.controlStall false)).id = true) :
    (s.clock imem false).pcId =
      pcAt sim (T.clock (s.dataStall false) (s.controlStall false)).iId := by
  have hpcId : (s.clock imem false).pcId =
      if !s.dataStall false then s.pcId else if !s.controlStall false then 1 else s.pc := rfl
  rw [hpcId, Track.clock_iId]
  cases hds : s.dataStall false with
  | false => exact h.pcId (h.id_of_dataStall hds)
  | true =>
      have hcs : s.controlStall false = true := by
        rw [hds] at hT
        exact hT
      rw [hcs]
      exact h.pc_eq hp hcs

/-- A clock keeps the invariant. -/
theorem clock (hp : Program imem sim) :
    Inv sim (T.clock (s.dataStall false) (s.controlStall false)) (s.clock imem false) where
  regs := h.regFileNext hp
  typed := h.typed.clock imem
  wbFull hT := (h.memFull hT).done _
  wbEmpty hT := (h.memEmpty hT).toWb _
  memFull hT := h.exFull hT
  memEmpty hT := h.exEmpty hT
  exFull hT := (h.clock_ex hp).1 (by simpa [Track.clock] using hT)
  exEmpty hT := (h.clock_ex hp).2 hT
  idFull := (h.clock_id hp).1
  idEmpty := (h.clock_id hp).2
  fetchId hT := by
    show s.nextPc false = _
    rw [Track.clock_iId]
    cases hds : s.dataStall false with
    | false =>
        have hid := h.id_of_dataStall hds
        rw [h.nextPc_of_stall (Or.inl hid) (by rw [hds]; rfl)]
        exact h.fetchId hid
    | true =>
        have hcs : s.controlStall false = true := by
          rw [hds] at hT
          exact hT
        rw [h.nextPc_of_fetch hds hcs, h.pc_eq hp hcs]
        exact BitVec.add_comm _ _
  fetchEx hc := h.clock_fetchEx hc
  fetchMem hc := h.clock_fetchMem hc
  fetch hT hex hmem := h.clock_fetch hT hex hmem
  pcId hT := h.clock_pcId hp hT
  pcEx hT := by
    have hT' : (T.id && s.dataStall false) = true := hT
    rw [Bool.and_eq_true] at hT'
    show (if s.dataStall false then s.pcId else 1) = _
    rw [hT'.2]
    exact h.pcId hT'.1
  pcMem hT := h.pcEx hT
  pcWb hT := h.pcMem hT

end Inv

end Clock

end SimpleCpu.Mips.Textbook
