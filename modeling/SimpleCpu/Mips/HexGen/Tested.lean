import SimpleCpu.CoSim.HexText
import SimpleCpu.Mips.HexGen.Replay
import SimpleCpu.Mips.SingleCycleBench

/-!
# The test of a generated program

The generator draws words that the single-cycle processor and the simulator both execute
(`Fits`), and the simulator replays them (`go_printToFile`).  So the test of the files that are
written passes exactly if the processor has none of the signed comparisons in them wrong
(`generated_passes_iff`).
-/

namespace SimpleCpu.Mips.HexGen

open SimpleCpu.Bits SimpleCpu.CoSim SimpleCpu.HexGen SimpleCpu.Iss SimpleCpu.Mips.CoSim
open SimpleCpu.Mips.Iss SimpleCpu.Mips.Isa SimpleCpu.Mips.SingleCycle

/-! ## Files

`print_to_file` writes the words of a program and their addresses into two files.
`load_program` reads them in step, and `init_imem` with `$readmemh`. -/

/-- The file of the words that `print_to_file` writes. -/
def Gen.instrHexVal (g : Gen) : List Char := printLines (g.printToFile.map Prod.snd)

/-- The file of their addresses. -/
def Gen.pcHexVal (g : Gen) : List Char := printLines (g.printToFile.map Prod.fst)

/-- `init`, with the texts of the two files.  Without a result `load_program` does not return,
or it uses a variable that has not been set. -/
def initFiles (prog pcFile : List Char) : Option Checker :=
  (scanPairs 32 prog pcFile).map CoSim.init

/-- `top_tb` of the single-cycle processor on the texts of two files, after `n` falling edges
out of reset. -/
def fileTb (imem dmem : BitVec 32 → BitVec 32) (prog pcFile : List Char) (n : Nat) :
    Option (Outcome Checker Mismatch) := do
  let words ← memhPairs 32 prog pcFile
  let c ← initFiles prog pcFile
  return test (initImem 1024 imem words) (Top.booted dmem) c n

/-- On the files that are written, it is the test of what has been recorded. -/
theorem fileTb_printToFile (imem dmem : BitVec 32 → BitVec 32) (g : Gen) (n : Nat) :
    fileTb imem dmem g.instrHexVal g.pcHexVal n = some (topTb imem dmem g.printToFile n) := by
  obtain ⟨hscan, hmemh⟩ := pairs_printLines g.printToFile
  unfold fileTb initFiles Gen.instrHexVal Gen.pcHexVal
  rw [hscan, hmemh]
  rfl

/-! ## Cycles of a replay -/

section Cycles

variable {s : Sim} {k : Nat} {steps rest : List Step} {st : Step}

theorem cycles_cycle (s : Sim) (i : Nat) : cycles (cycle s) i = cycles s (i + 1) := by
  induction i with
  | zero => rfl
  | succ i ih => exact congrArg cycle ih

/-- The registers after some steps. -/
def lastRegs (regs : BitVec 5 → BitVec 32) (steps : List Step) : BitVec 5 → BitVec 32 :=
  steps.foldl (fun _ st => st.regs) regs

/-- The cycle of each step. -/
theorem cycles_of_go (h : go k s = steps ++ st :: rest) :
    nextStep (cycles s steps.length) = st ∧
      (cycles s steps.length).current.regs = lastRegs s.current.regs steps := by
  induction steps generalizing s k with
  | nil =>
      cases k with
      | zero => cases h
      | succ k =>
          rw [go] at h
          split at h
          next => exact ⟨(List.cons.inj h).1, rfl⟩
          next => cases h
  | cons st' steps ih =>
      cases k with
      | zero => cases h
      | succ k =>
          rw [go] at h
          split at h
          next =>
              obtain ⟨hst, hrest⟩ := List.cons.inj h
              have hcycle := ih hrest
              rw [cycles_cycle] at hcycle
              rw [← hst]
              exact hcycle
          next => cases h

end Cycles

/-! ## Words for both machines -/

/-- A word of an instruction that uses nothing but the data region. -/
structure Fits (regs : BitVec 5 → BitVec 32) (w : BitVec 32) : Prop where
  nonzero : w ≠ 0
  decodes : ∃ x, decodeInstr w = some x ∧
    ∀ addr ∈ x.touched regs, 0x2000 ≤ addr ∧ addr < dataEnd

section Fits

variable {regs : BitVec 5 → BitVec 32} {w : BitVec 32}

theorem nonzero_of_decodeInstr {x : Instr} (hx : decodeInstr w = some x)
    (hne : x ≠ .sh .sll 0 0 0) : w ≠ 0 := by
  rintro rfl
  have hzero : decodeInstr 0 = some (.sh .sll 0 0 0) := by decide
  rw [hzero] at hx
  exact hne (Option.some.inj hx).symm

theorem fits_r {f : RFun} {rd rs rt : BitVec 5} (hx : decodeInstr w = some (.r f rd rs rt)) :
    Fits regs w :=
  ⟨nonzero_of_decodeInstr hx nofun, _, hx, nofun⟩

theorem fits_j {t : BitVec 26} (hx : decodeInstr w = some (.j t)) : Fits regs w :=
  ⟨nonzero_of_decodeInstr hx nofun, _, hx, nofun⟩

theorem fits_addiOpcode : Fits regs Gen.addiOpcode :=
  ⟨by decide, _, decodeInstr_addiOpcode, nofun⟩

theorem fits_drawnI {g : Gen} {a : IArgs} (hop : a.opcode ∈ opcodeValIType)
    (himm : a.imm.toNat < 0x10000) (hv : g.verdict a.opcode a.rs a.imm = .fine) :
    Fits g.sim.current.regs a.word := by
  obtain ⟨ho, hi, hword⟩ := iWord_of_drawn hop himm
  obtain ⟨hop', hrs, -, himm'⟩ := fields_iWord _ _ hword
  obtain ⟨hne, hls⟩ := opcodeValIType_cases hop
  obtain ⟨x, hx, -⟩ := decodeInstr_iWord hword (by rw [← ho]; exact hop)
  have henc := encodes_of_decodeInstr hx
  have hdata : isLsOpcode a.opcode = true →
      ∀ addr, addr = wordAddr g.sim.current.regs (rs a.word) (imm16 a.word) →
        0x2000 ≤ addr ∧ addr < dataEnd := by
    rintro h addr rfl
    obtain ⟨hlow, hhigh⟩ := data_of_verdict hv h
    rw [hi, extend_imm16] at hlow hhigh
    rw [hrs, himm']
    show 0x2000 ≤ (wordAddr _ _ _).toNat ∧ (wordAddr _ _ _).toNat < 0x102000
    unfold wordAddr
    rw [and_not_3_toNat]
    omega
  have hopcode : ∀ o : BitVec 6, op a.word = o → a.opcode = o.setWidth 32 := by
    rintro o rfl
    rw [hop']
    exact ho
  refine ⟨?_, x, hx, fun addr haddr => ?_⟩
  · intro hzero
    rw [hzero] at hop'
    exact hne hop'.symm
  · cases henc with
    | lw h => exact hdata (by rw [hopcode _ h]; rfl) addr (Option.some.inj haddr).symm
    | sw h => exact hdata (by rw [hopcode _ h]; rfl) addr (Option.some.inj haddr).symm
    | r | sh | i | b | bz | j | jal => exact absurd haddr nofun

/-- No drawn word does anything else. -/
theorem fits_of_drawn {g : Gen} {r : Request} (hw : Chosen g r w) (hr : r.isDrawn = true) :
    Fits g.sim.current.regs w := by
  obtain ⟨f, rd, rs, rt, -, hx⟩ | ⟨a, -, rfl, hop, himm, hv⟩ | ⟨t, -, hx⟩ := hw.drawn_cases hr
  · exact fits_r hx
  · exact fits_drawnI hop himm hv
  · exact fits_j hx

end Fits

/-! ## Runs -/

/-- Every word is one for both machines, and recorded. -/
structure Traced (g : Gen) : Prop where
  fits : ∀ steps st rest, g.trace = steps ++ st :: rest →
    Fits (lastRegs initMemory.current.regs steps) st.word
  last : lastRegs initMemory.current.regs g.trace = g.sim.current.regs
  recorded : ∀ st ∈ g.trace, g.pc st.pc = true
  nonzero : ∀ i, g.pc i = true → g.instr i ≠ 0

/-- All arguments are drawn, and no slot is written twice. -/
structure Drawn (g : Gen) (r : Request) : Prop where
  fresh : Fresh g
  drawn : r.isDrawn = true

theorem Drawn.clean {g : Gen} {r : Request} (h : Drawn g r) : Clean g r where
  fresh := h.fresh
  given w hw := by
    have hdrawn := h.drawn
    cases r with
    | r args =>
        cases args with
        | none => exact absurd hw nofun
        | some a => exact absurd hdrawn Bool.false_ne_true
    | i args =>
        cases args with
        | none => exact absurd hw nofun
        | some a => exact absurd hdrawn Bool.false_ne_true
    | j => exact absurd hw nofun

section Runs

variable {g g' g₁ : Gen} {w : BitVec 32}

theorem traced_init (rand : List Nat) : Traced (init rand) where
  fits steps st rest h := by
    have hlength := congrArg List.length h
    rw [List.length_append, List.length_cons] at hlength
    exact absurd hlength (by show ¬ 0 = _; omega)
  last := rfl
  recorded := nofun
  nonzero := nofun

/-- What is placed is recorded. -/
theorem Placed.recorded_trace (hp : Placed g w g.cur g') (hcur : g.cur.toNat < 0x1FFF)
    (hr : ∀ st ∈ g.trace, g.pc st.pc = true) : ∀ st ∈ g'.trace, g'.pc st.pc = true := by
  intro st hst
  rw [hp.pc]
  by_cases hne : st.pc = g.cur
  · rw [hne, Function.update_self]
  · rw [Function.update_of_ne hne]
    rw [hp.trace_eq hcur, List.mem_append, List.mem_singleton] at hst
    rcases hst with hst | rfl
    · exact hr st hst
    · exact absurd rfl hne

theorem Placed.nonzero (hp : Placed g w g.cur g') (hw : w ≠ 0)
    (hr : ∀ i, g.pc i = true → g.instr i ≠ 0) : ∀ i, g'.pc i = true → g'.instr i ≠ 0 := by
  intro i hi
  by_cases hne : i = g.cur
  · rw [hne, hp.recorded.2]
    exact hw
  · rw [(hp.frame hne).1] at hi
    rw [(hp.frame hne).2]
    exact hr i hi

/-- One word. -/
theorem Placed.traced (hp : Placed g w g.cur g') (hcur : g.cur.toNat < 0x1FFF)
    (hw : Fits g.sim.current.regs w) (h : Traced g) : Traced g' where
  fits steps st rest heq := by
    rw [hp.trace_eq hcur] at heq
    rcases List.eq_nil_or_concat rest with rfl | ⟨rest', st', rfl⟩
    · obtain ⟨hsteps, hst⟩ := List.append_inj' heq rfl
      rw [← hsteps, h.last, ← (List.cons.inj hst).1]
      exact hw
    · rw [List.concat_eq_append, ← List.cons_append, ← List.append_assoc] at heq
      exact h.fits steps st rest' (List.append_inj' heq rfl).1
  last := by
    rw [hp.trace_eq hcur]
    unfold lastRegs
    rw [List.foldl_append]
    rfl
  recorded := hp.recorded_trace hcur h.recorded
  nonzero := hp.nonzero hw.nonzero h.nonzero

theorem makeRoom_traced (hb : Between g) (ht : Traced g) (h : g.makeRoom = .ok g₁) :
    Traced g₁ := by
  obtain ⟨hcur, ⟨-, rfl⟩ | ⟨i, hj⟩⟩ := makeRoom_cases hb.toSettled h
  · exact ht
  · have hp := hj.placed
    rw [hb.prev] at hp
    have hbound := hj.bound
    obtain ⟨t, hx, -⟩ := decodeInstr_genJ (by omega) hj.aligned
    exact hp.traced (by omega) (fits_j hx) ht

theorem Run.traced (h : Run Drawn g) : Traced g := by
  induction h with
  | init rand => exact traced_init rand
  | draw rand _ ih => exact ⟨ih.fits, ih.last, ih.recorded, ih.nonzero⟩
  | request hrun hdrawn hr ih =>
      obtain ⟨-, g₁, w, hroom, -, hcur₁, hw, hp⟩ := request_placed hrun.between hr
      exact hp.traced (by omega) (fits_of_drawn hw hdrawn.drawn)
        (makeRoom_traced hrun.between ih hroom)

theorem Run.clean (h : Run Drawn g) : Run Clean g := by
  induction h with
  | init rand => exact .init rand
  | draw rand _ ih => exact .draw rand ih
  | request _ hdrawn hr ih => exact .request ih hdrawn.clean hr

end Runs

/-! ## The test -/

/-- The end sequence: everything up to the `SYSCALL` is for both machines. -/
structure Ended (g₂ g' : Gen) : Prop where
  replaying : Replaying g'
  halted : g'.sim.runBit = false
  traced : Traced g₂
  two : g₂.sim.current.regs 2 = 0xa
  trace : ∃ st, g'.trace = g₂.trace ++ [st] ∧ st.word = Gen.syscallOpcode
  recorded : ∀ st ∈ g'.trace, g'.pc st.pc = true
  nonzero : ∀ i, g'.pc i = true → g'.instr i ≠ 0

section Test

variable {g g' g₂ : Gen}

theorem genEndSeq_ended (h : Run Drawn g) (hfresh : Fresh g) (hroom : EndRoom g)
    (hend : g.genEndSeq = .ok g') : ∃ g₂, Ended g₂ g' := by
  have hb := h.between
  have hr := h.clean.replaying
  obtain ⟨hr', hhalt, -⟩ := genEndSeq_replaying hb hr hfresh hroom hend
  obtain ⟨g₁, g₂, g₃, hrun⟩ := genEndSeq_ok hb hend
  obtain ⟨-, hcur₁, hcur₂, -⟩ := hrun.bounds hb
  obtain ⟨-, htwo, -, hp⟩ := hrun.replaying hb hr hfresh hroom
  have ht₁ := makeRoom_traced hb h.traced hrun.room₁
  have ht₂ := hrun.addi.traced (by omega) fits_addiOpcode ht₁
  exact ⟨g₂, hr', hhalt, ht₂, htwo, ⟨_, hp.trace_eq (by omega), rfl⟩,
    hp.recorded_trace (by omega) ht₂.recorded, hp.nonzero (by decide) ht₂.nonzero⟩

/-- A program inside the first `n` words is no longer than `n`. -/
theorem printToFile_length {n : Nat} (hn : n ≤ 2048)
    (htext : ∀ p ∈ g.printToFile, p.1.toNat < 4 * n) : g.printToFile.length ≤ n := by
  obtain ⟨m, hm⟩ := Nat.exists_eq_add_of_le hn
  unfold Gen.printToFile at htext ⊢
  rw [hm, List.range_add, List.filterMap_append] at htext ⊢
  have hrest : ((List.range m).map (n + ·)).filterMap (fun k =>
      if g.pc (BitVec.ofNat 32 (4 * k)) then
        some (BitVec.ofNat 32 (4 * k), g.instr (BitVec.ofNat 32 (4 * k)))
      else none) = [] := by
    rw [List.filterMap_eq_nil_iff]
    intro k hk
    obtain ⟨j, hj, rfl⟩ := List.mem_map.mp hk
    rw [List.mem_range] at hj
    by_contra hsome
    obtain ⟨p, hp⟩ := Option.ne_none_iff_exists'.mp hsome
    have hlt := htext p (List.mem_append_right _ (List.mem_filterMap.mpr ⟨_, hk, hp⟩))
    split at hp
    next =>
        rw [← Option.some.inj hp, BitVec.toNat_ofNat] at hlt
        omega
    next => exact absurd hp nofun
  rw [hrest, List.append_nil]
  exact (List.length_filterMap_le _ _).trans_eq List.length_range

theorem Ended.loadable (h : Ended g₂ g') (htext : ∀ p ∈ g'.printToFile, p.1 < 0x1000) :
    Loadable singleCycleLayout g'.printToFile where
  fits := printToFile_length (by decide) htext
  nonzero p hp := by
    obtain ⟨hused, hword⟩ := used_of_mem_printToFile hp
    rw [hword]
    exact h.nonzero _ hused
  aligned p hp := by
    obtain ⟨-, haligned, -⟩ := printToFile_partOf h.replaying.slotted p hp
    exact (and_3_eq_zero_iff _).mpr haligned.mod_eq
  inText := htext

/-- A recorded word lies inside the instruction memory. -/
theorem Ended.pc_lt (h : Ended g₂ g') (htext : ∀ p ∈ g'.printToFile, p.1 < 0x1000) {st : Step}
    (hst : st ∈ g'.trace) : st.pc < 0x1000 := by
  obtain ⟨p, hp, heq⟩ := List.mem_map.mp (mem_printToFile h.replaying.slotted (h.recorded st hst))
  rw [← heq]
  exact htext p hp

/-- The cycle of each recorded step, on the program that is written. -/
theorem Ended.cycles_eq (h : Ended g₂ g') {steps rest : List Step} {st : Step}
    (heq : g'.trace = steps ++ st :: rest) :
    nextStep (cycles (loadProgram initMemory g'.printToFile) steps.length) = st ∧
      (cycles (loadProgram initMemory g'.printToFile) steps.length).current.regs =
        lastRegs initMemory.current.regs steps := by
  have hgo := go_printToFile h.replaying h.halted (Nat.le_refl g'.trace.length)
  have hcycle := cycles_of_go (hgo.trans heq)
  rw [loadProgram_withMem] at hcycle ⊢
  exact hcycle

theorem exists_split {α : Type} {l : List α} {i : Nat} (hi : i < l.length) :
    ∃ front a rest, l = front ++ a :: rest ∧ front.length = i :=
  ⟨l.take i, l[i], l.drop (i + 1), by simp, by rw [List.length_take]; omega⟩

/-- The program is one for both machines. -/
theorem Ended.instrRun (h : Ended g₂ g') (htext : ∀ p ∈ g'.printToFile, p.1 < 0x1000) :
    InstrRun (loadProgram initMemory g'.printToFile) g₂.trace.length where
  executes i hi := by
    obtain ⟨last, htrace, -⟩ := h.trace
    obtain ⟨steps, st, rest, heq, rfl⟩ := exists_split hi
    have heq' : g'.trace = steps ++ st :: (rest ++ [last]) := by
      rw [htrace, heq, List.append_assoc, List.cons_append]
    obtain ⟨hnext, hregs⟩ := h.cycles_eq heq'
    obtain ⟨-, x, hx, hdata⟩ := h.traced.fits steps st rest heq
    rw [← hnext] at hx
    rw [← hregs] at hdata
    refine ⟨x, ?_, hx, rfl, hdata⟩
    have hmem : st ∈ g'.trace := by
      rw [heq']
      simp
    have hpc := h.pc_lt htext hmem
    rwa [← hnext] at hpc
  inText i hi := by
    obtain ⟨last, htrace, -⟩ := h.trace
    obtain ⟨steps, st, rest, heq, rfl⟩ := exists_split (l := g'.trace) (i := i) (by
      rw [htrace, List.length_append, List.length_singleton]
      omega)
    obtain ⟨hnext, -⟩ := h.cycles_eq heq
    have hmem : st ∈ g'.trace := by
      rw [heq]
      simp
    have hpc := h.pc_lt htext hmem
    rwa [← hnext] at hpc

theorem Ended.endsAt (h : Ended g₂ g') :
    CoSim.EndsAt (loadProgram initMemory g'.printToFile) g₂.trace.length := by
  obtain ⟨st, htrace, hword⟩ := h.trace
  obtain ⟨hnext, hregs⟩ := h.cycles_eq htrace
  refine ⟨?_, ?_⟩
  · exact (congrArg Step.word hnext).trans hword
  · rw [hregs, h.traced.last]
    exact h.two

theorem init_sim (words : List (BitVec 32 × BitVec 32)) :
    (CoSim.init words).sim = loadProgram initMemory words :=
  rfl

/-- The `SYSCALL` compares nothing. -/
theorem not_miscompares_syscall {s : Sim} (hw : s.memRead s.current.pc = 0xc) :
    ¬ Miscompares s := by
  rintro ⟨x, hx, -⟩
  exact decodeInstr_ne_syscall hx hw

/-- The test of a program that has been drawn, with no slot written twice and room for the end
sequence, passes on the files that are written exactly if the processor has none of its signed
comparisons wrong. -/
theorem generated_passes_iff (h : Run Drawn g) (hfresh : Fresh g) (hroom : EndRoom g)
    (hend : g.genEndSeq = .ok g') (htext : ∀ p ∈ g'.printToFile, p.1 < 0x1000)
    (imem dmem : BitVec 32 → BitVec 32) :
    fileTb imem dmem g'.instrHexVal g'.pcHexVal g'.trace.length = some .passed ↔
      ∀ i < g'.trace.length, ¬ Miscompares (cycles (loadProgram initMemory g'.printToFile) i) := by
  obtain ⟨g₂, hended⟩ := genEndSeq_ended h hfresh hroom hend
  obtain ⟨last, htrace, -⟩ := hended.trace
  have hlength : g'.trace.length = g₂.trace.length + 1 := by
    rw [htrace, List.length_append, List.length_singleton]
  have hrun := hended.instrRun htext
  have hat := hended.endsAt
  rw [← init_sim] at hrun hat
  have hpasses := (topTb_program (hended.loadable htext) hrun imem dmem).2 hat
  rw [init_sim] at hpasses
  rw [fileTb_printToFile, Option.some.injEq, hlength, Nat.forall_lt_succ_right]
  exact hpasses.trans (and_iff_left (not_miscompares_syscall hended.endsAt.word)).symm

/-- `ADDI r1, r0, 5` and `SLT r2, r0, r1`. -/
theorem generated_passes_slt : ∃ g₁ g g',
    (init [0, 1, 0, 5, 3, 0, 1, 2, 0]).request (.i none) = .ok g₁ ∧
      g₁.request (.r none) = .ok g ∧ g.genEndSeq = .ok g' ∧
      fileTb (fun _ => 0) (fun _ => 0) g'.instrHexVal g'.pcHexVal g'.trace.length =
        some .passed := by
  have hcheck : ((init [0, 1, 0, 5, 3, 0, 1, 2, 0]).request (.i none)).toOption.any (fun g₁ =>
      decide (Fresh g₁) && (g₁.request (.r none)).toOption.any fun g =>
        decide (Fresh g) && decide (EndRoom g) && g.genEndSeq.toOption.any fun g' =>
          (g'.printToFile.all fun p => decide (p.1 < 0x1000)) &&
            (List.range g'.trace.length).all fun i =>
              !decide (Miscompares (cycles (loadProgram initMemory g'.printToFile) i))) =
      true := by
    decide +kernel
  obtain ⟨g₁, hg₁, hcheck⟩ := exists_of_any hcheck
  rw [Bool.and_eq_true, decide_eq_true_eq] at hcheck
  obtain ⟨hfresh₁, hcheck⟩ := hcheck
  obtain ⟨g, hg, hcheck⟩ := exists_of_any hcheck
  simp only [Bool.and_eq_true, decide_eq_true_eq] at hcheck
  obtain ⟨⟨hfresh, hroom⟩, hcheck⟩ := hcheck
  obtain ⟨g', hend, hcheck⟩ := exists_of_any hcheck
  rw [Bool.and_eq_true, List.all_eq_true, List.all_eq_true] at hcheck
  obtain ⟨htext, hright⟩ := hcheck
  have htext' : ∀ p ∈ g'.printToFile, p.1 < 0x1000 := fun p hp => of_decide_eq_true (htext p hp)
  have hright' : ∀ i < g'.trace.length,
      ¬ Miscompares (cycles (loadProgram initMemory g'.printToFile) i) := fun i hi => by
    simpa using hright i (List.mem_range.mpr hi)
  have hrun : Run Drawn g :=
    .request (.request (.init _) ⟨Or.inl rfl, rfl⟩ hg₁) ⟨hfresh₁, rfl⟩ hg
  refine ⟨g₁, g, g', hg₁, hg, hend, ?_⟩
  exact (generated_passes_iff hrun hfresh hroom hend htext' _ _).mpr hright'

end Test

end SimpleCpu.Mips.HexGen
