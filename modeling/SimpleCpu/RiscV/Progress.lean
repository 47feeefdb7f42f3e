import SimpleCpu.RiscV.IssCorrect

/-!
# Progress of the RISC-V simulator

`go` calls `cycle` until `RUN_BIT` is cleared.  Each case of the nested switches advances
the program counter by itself, and an encoding without a case neither advances it nor
clears `RUN_BIT`.

* `Outcome`: what a cycle does to the program counter and to `RUN_BIT`.
* `cycles_of_unhandled`: an encoding without a case is executed forever.
* `moves_on_iff`: the states from which a cycle stays at its address without being told to.
-/

namespace SimpleCpu.RiscV.Iss

open SimpleCpu.Bits SimpleCpu.Iss SimpleCpu.RiscV.Isa

/-! ## Encodings without a case -/

/-- The format of the word is known, and no case of its `switch` handles the word. -/
def unhandled (w : BitVec 32) : Prop :=
  opcode w = 0x33 ∧ Isa.rd w ≠ 0 ∧ functR w ∈ [0x9#4, 0xa, 0xb, 0xc, 0xe, 0xf] ∨
  opcode w = 0x13 ∧ Isa.funct3 w ∈ [1#3, 5, 7] ∨
  opcode w = 0x03 ∧ Isa.funct3 w ∈ [3#3, 6] ∨
  opcode w = 0x23 ∧ Isa.funct3 w ∈ [3#3, 4, 5, 6, 7] ∨
  opcode w = 0x63 ∧ Isa.funct3 w ∈ [2#3, 3]

instance (w : BitVec 32) : Decidable (unhandled w) := inferInstanceAs (Decidable (_ ∨ _))

/-! ## The switches -/

section Cases

variable (s : Sim)

/-- The simulator goes on at the next word. -/
structure Advances (s s' : Sim) : Prop where
  pc : s'.next.pc = s.current.pc + 4
  run : s'.runBit = s.runBit

theorem executeR_unhandled {fn : BitVec 4} (hfn : fn ∈ [0x9#4, 0xa, 0xb, 0xc, 0xe, 0xf])
    {rd : BitVec 32} (hrd : rd ≠ 0) (rs1 rs2 funct7 funct3 : BitVec 32)
    (hfunct : ((funct7 >>> 5 &&& 0x1) <<< 3) ||| funct3 = fn.setWidth 32) :
    executeR s rs1 rs2 rd funct7 funct3 = s := by
  unfold executeR
  simp only [hfunct, if_neg hrd]
  simp only [List.mem_cons, List.not_mem_nil, or_false] at hfn
  rcases hfn with rfl | rfl | rfl | rfl | rfl | rfl <;> rfl

theorem executeR_advances {fn : BitVec 4} {rd : BitVec 32}
    (h : ¬ (rd ≠ 0 ∧ fn ∈ [0x9#4, 0xa, 0xb, 0xc, 0xe, 0xf]))
    (rs1 rs2 funct7 funct3 : BitVec 32)
    (hfunct : ((funct7 >>> 5 &&& 0x1) <<< 3) ||| funct3 = fn.setWidth 32) :
    Advances s (executeR s rs1 rs2 rd funct7 funct3) := by
  unfold executeR
  by_cases hrd : rd = 0
  · simp only [if_pos hrd]
    exact ⟨rfl, rfl⟩
  · have hrow : ∀ fn : BitVec 4, fn ∉ [0x9#4, 0xa, 0xb, 0xc, 0xe, 0xf] →
        fn = 0 ∨ fn = 1 ∨ fn = 2 ∨ fn = 3 ∨ fn = 4 ∨ fn = 5 ∨ fn = 6 ∨ fn = 7 ∨ fn = 8 ∨
          fn = 0xd := by
      decide
    simp only [hfunct, if_neg hrd]
    rcases hrow fn fun hmem => h ⟨hrd, hmem⟩ with
      rfl | rfl | rfl | rfl | rfl | rfl | rfl | rfl | rfl | rfl <;> exact ⟨rfl, rfl⟩

theorem executeI_data_unhandled {fn : BitVec 3} (hfn : fn ∈ [1#3, 5, 7])
    (rs1 rd imm : BitVec 32) : executeI s (fn.setWidth 32) 0x13 rs1 rd imm = s := by
  simp only [List.mem_cons, List.not_mem_nil, or_false] at hfn
  rcases hfn with rfl | rfl | rfl <;> rfl

theorem executeI_load_unhandled {fn : BitVec 3} (hfn : fn ∈ [3#3, 6])
    (rs1 rd imm : BitVec 32) : executeI s (fn.setWidth 32) 0x03 rs1 rd imm = s := by
  simp only [List.mem_cons, List.not_mem_nil, or_false] at hfn
  rcases hfn with rfl | rfl <;> rfl

theorem executeI_data_advances {fn : BitVec 3} (hfn : fn ∉ [1#3, 5, 7])
    (rs1 rd imm : BitVec 32) :
    Advances s (executeI s (fn.setWidth 32) 0x13 rs1 rd imm) := by
  have hrow : ∀ fn : BitVec 3, fn ∉ [1#3, 5, 7] →
      fn = 0 ∨ fn = 2 ∨ fn = 3 ∨ fn = 4 ∨ fn = 6 := by
    decide
  unfold executeI
  by_cases hrd : rd = 0
  · simp only [if_pos hrd]
    rcases hrow fn hfn with rfl | rfl | rfl | rfl | rfl <;> exact ⟨rfl, rfl⟩
  · simp only [if_neg hrd]
    rcases hrow fn hfn with rfl | rfl | rfl | rfl | rfl <;> exact ⟨rfl, rfl⟩

theorem executeI_load_advances {fn : BitVec 3} (hfn : fn ∉ [3#3, 6]) (hjalr : fn ≠ 7)
    (rs1 rd imm : BitVec 32) :
    Advances s (executeI s (fn.setWidth 32) 0x03 rs1 rd imm) := by
  have hrow : ∀ fn : BitVec 3, fn ∉ [3#3, 6] → fn ≠ 7 →
      fn = 0 ∨ fn = 1 ∨ fn = 2 ∨ fn = 4 ∨ fn = 5 := by
    decide
  unfold executeI
  by_cases hrd : rd = 0
  · simp only [if_pos hrd]
    rcases hrow fn hfn hjalr with rfl | rfl | rfl | rfl | rfl <;> exact ⟨rfl, rfl⟩
  · simp only [if_neg hrd]
    rcases hrow fn hfn hjalr with rfl | rfl | rfl | rfl | rfl <;> exact ⟨rfl, rfl⟩

theorem executeS_unhandled {fn : BitVec 3} (hfn : fn ∈ [3#3, 4, 5, 6, 7])
    (rs1 rs2 imm : BitVec 32) : executeS s (fn.setWidth 32) rs1 rs2 imm = s := by
  simp only [List.mem_cons, List.not_mem_nil, or_false] at hfn
  rcases hfn with rfl | rfl | rfl | rfl | rfl <;> rfl

theorem executeS_advances {fn : BitVec 3} (hfn : fn ∉ [3#3, 4, 5, 6, 7])
    (rs1 rs2 imm : BitVec 32) : Advances s (executeS s (fn.setWidth 32) rs1 rs2 imm) := by
  have hrow : ∀ fn : BitVec 3, fn ∉ [3#3, 4, 5, 6, 7] → fn = 0 ∨ fn = 1 ∨ fn = 2 := by
    decide
  rcases hrow fn hfn with rfl | rfl | rfl <;> exact ⟨rfl, rfl⟩

theorem executeB_unhandled {fn : BitVec 3} (hfn : fn ∈ [2#3, 3]) (rs1 rs2 imm : BitVec 32) :
    executeB s (fn.setWidth 32) rs1 rs2 imm = s := by
  simp only [List.mem_cons, List.not_mem_nil, or_false] at hfn
  rcases hfn with rfl | rfl <;> rfl

theorem executeU_advances {op : BitVec 32} (hop : op = LUI ∨ op = AUIPC) (rd imm : BitVec 32) :
    Advances s (executeU s op rd imm) := by
  rcases hop with rfl | rfl <;> exact ⟨rfl, rfl⟩

end Cases

/-! ## One cycle -/

/-- The word is a taken branch or a jump whose target is its own address.  Code 7 of opcode
0x03 is the simulator's `JALR`; the architecture clears the lowest bit of its target. -/
inductive SelfJump (s : Sim) (w : BitVec 32) : Prop where
  | branch {f : BrnFun} (hop : opcode w = 0x63) (hf : brnFun (Isa.funct3 w) = some f)
      (taken : f.eval (s.current.regs (Isa.rs1 w)) (s.current.regs (Isa.rs2 w)) = true)
      (target : s.current.pc + (immB w ++ 0#1).signExtend 32 = s.current.pc)
  | jal (hop : opcode w = 0x6F)
      (target : s.current.pc + (immJ w ++ 0#1).signExtend 32 = s.current.pc)
  | jalr (hop : opcode w = 0x03) (hf : Isa.funct3 w = 7)
      (target : (s.current.regs (Isa.rs1 w) + (immI w).signExtend 32) &&& 0xFFFFFFFE =
        s.current.pc)

/-- What a cycle does to the program counter and to `RUN_BIT`, where a case handles the
word or no format fits. -/
inductive Outcome (s : Sim) (w : BitVec 32) (s' : Sim) : Prop where
  | invalid (htype : decodeInstrType w = none) (run : s'.runBit = false)
  | advance (pc : s'.current.pc = s.current.pc + 4) (run : s'.runBit = s.runBit)
  | branch {f : BrnFun} (hop : opcode w = 0x63) (hf : brnFun (Isa.funct3 w) = some f)
      (taken : f.eval (s.current.regs (Isa.rs1 w)) (s.current.regs (Isa.rs2 w)) = true)
      (pc : s'.current.pc = s.current.pc + (immB w ++ 0#1).signExtend 32)
      (run : s'.runBit = s.runBit)
  | jal (hop : opcode w = 0x6F)
      (pc : s'.current.pc = s.current.pc + (immJ w ++ 0#1).signExtend 32)
      (run : s'.runBit = s.runBit)
  | jalr (hop : opcode w = 0x03) (hf : Isa.funct3 w = 7)
      (pc : s'.current.pc = s.current.regs (Isa.rs1 w) + (immI w).signExtend 32)
      (run : s'.runBit = s.runBit)

section Cycle

variable {s : Sim} {w : BitVec 32}

/-- The fetched word, executed. -/
theorem cycle_dispatch (hw : s.memRead s.current.pc = w) {t : InstrType}
    (ht : decodeInstrType w = some t) :
    cycle s =
      { dispatch t { s with instrOpcode := w } w with
        current := (dispatch t { s with instrOpcode := w } w).next } := by
  have hp : processInstruction s = dispatch t { s with instrOpcode := w } w := by
    unfold processInstruction
    simp only [hw, ht]
    cases t <;> rfl
  unfold cycle
  rw [hp]

/-- A word without a case changes nothing. -/
theorem dispatch_unhandled (s : Sim) (h : unhandled w) :
    ∃ t, decodeInstrType w = some t ∧ dispatch t s w = s := by
  rcases h with ⟨hop, hrd, hf⟩ | ⟨hop, hf⟩ | ⟨hop, hf⟩ | ⟨hop, hf⟩ | ⟨hop, hf⟩
  · refine ⟨.r, (decodeInstrType_eq hop).trans rfl, ?_⟩
    show decodeR s w = s
    simp only [decodeR, field_rd]
    exact executeR_unhandled s hf (fun h0 => hrd ((field_eq_zero _).mp h0)) _ _ _ _
      (field_functR w)
  · refine ⟨.i, (decodeInstrType_eq hop).trans rfl, ?_⟩
    show decodeI s w = s
    simp only [decodeI, field_funct3, field_opcode, hop]
    exact executeI_data_unhandled s hf _ _ _
  · refine ⟨.i, (decodeInstrType_eq hop).trans rfl, ?_⟩
    show decodeI s w = s
    simp only [decodeI, field_funct3, field_opcode, hop]
    exact executeI_load_unhandled s hf _ _ _
  · refine ⟨.s, (decodeInstrType_eq hop).trans rfl, ?_⟩
    show decodeS s w = s
    simp only [decodeS, field_funct3]
    exact executeS_unhandled s hf _ _ _
  · refine ⟨.b, (decodeInstrType_eq hop).trans rfl, ?_⟩
    show decodeB s w = s
    simp only [decodeB, field_funct3]
    exact executeB_unhandled s hf _ _ _

theorem cycle_unhandled (hs : s.next = s.current) (hw : s.memRead s.current.pc = w)
    (h : unhandled w) : cycle s = { s with instrOpcode := w } := by
  obtain ⟨t, ht, hdispatch⟩ := dispatch_unhandled { s with instrOpcode := w } h
  rw [cycle_dispatch hw ht, hdispatch]
  show ({ s with instrOpcode := w, current := s.next } : Sim) = { s with instrOpcode := w }
  rw [hs]

/-- The same word is executed forever. -/
theorem cycles_of_unhandled (hs : s.next = s.current) (hw : s.memRead s.current.pc = w)
    (h : unhandled w) (k : Nat) : cycles s (k + 1) = { s with instrOpcode := w } := by
  induction k with
  | zero => exact cycle_unhandled hs hw h
  | succ k ih =>
      show cycle (cycles s (k + 1)) = _
      rw [ih]
      exact cycle_unhandled (s := { s with instrOpcode := w }) hs hw h

/-- The outcome of a cycle, from that of the switch. -/
theorem Outcome.of_advances (hw : s.memRead s.current.pc = w) {t : InstrType}
    (ht : decodeInstrType w = some t)
    (h : Advances { s with instrOpcode := w } (dispatch t { s with instrOpcode := w } w)) :
    Outcome s w (cycle s) := by
  rw [cycle_dispatch hw ht]
  exact .advance h.pc h.run

/-- The outcome of a branch. -/
theorem cycle_outcome_branch (hw : s.memRead s.current.pc = w) (hop : opcode w = 0x63)
    {f : BrnFun} (hf : brnFun (Isa.funct3 w) = some f) : Outcome s w (cycle s) := by
  have ht : decodeInstrType w = some .b := (decodeInstrType_eq hop).trans rfl
  have heq : dispatch .b { s with instrOpcode := w } w =
      ({ s with instrOpcode := w } : Sim).assign (·.setPc
        (if f.eval (s.current.regs (Isa.rs1 w)) (s.current.regs (Isa.rs2 w)) then
          s.current.pc + (immB w ++ 0#1).signExtend 32 else s.current.pc + 4)) := by
    show decodeB _ w = _
    simp only [decodeB, field_rs1, field_rs2, field_funct3, field_immB]
    rw [executeB_eq _ hf, reg_field, reg_field, extend_immB]
  rw [cycle_dispatch hw ht, heq]
  cases htaken : f.eval (s.current.regs (Isa.rs1 w)) (s.current.regs (Isa.rs2 w)) with
  | true => exact .branch hop hf htaken rfl rfl
  | false => exact .advance rfl rfl

theorem cycle_jalr (hw : s.memRead s.current.pc = w) (hop : opcode w = 0x03)
    (hf : Isa.funct3 w = 7) :
    (cycle s).current.pc = s.current.regs (Isa.rs1 w) + (immI w).signExtend 32 ∧
      (cycle s).runBit = s.runBit := by
  have heq : dispatch .i { s with instrOpcode := w } w =
      executeI { s with instrOpcode := w } 7 0x03 ((Isa.rs1 w).setWidth 32)
        ((Isa.rd w).setWidth 32) ((immI w).setWidth 32) := by
    show decodeI _ w = _
    simp only [decodeI, field_rd, field_rs1, field_funct3, field_immI, field_opcode, hop, hf]
    rfl
  rw [cycle_dispatch hw ((decodeInstrType_eq hop).trans rfl), heq]
  have hjump := executeI_jalr { s with instrOpcode := w } ((Isa.rs1 w).setWidth 32)
    ((Isa.rd w).setWidth 32) ((immI w).setWidth 32)
  rwa [reg_field, extend_immI] at hjump

theorem cycle_jal (hw : s.memRead s.current.pc = w) (hop : opcode w = 0x6F) :
    (cycle s).current.pc = s.current.pc + (immJ w ++ 0#1).signExtend 32 ∧
      (cycle s).runBit = s.runBit := by
  have heq : dispatch .j { s with instrOpcode := w } w =
      executeJ { s with instrOpcode := w } ((Isa.rd w).setWidth 32)
        ((immJ w ++ 0#1).setWidth 32) := by
    show decodeJ _ w = _
    simp only [decodeJ, field_rd, field_immJ]
  rw [cycle_dispatch hw ((decodeInstrType_eq hop).trans rfl), heq]
  have hjump := executeJ_jumps { s with instrOpcode := w } ((Isa.rd w).setWidth 32)
    ((immJ w ++ 0#1).setWidth 32)
  rwa [extend_immJ] at hjump

/-- The outcome of a word that some case handles. -/
theorem cycle_outcome (hw : s.memRead s.current.pc = w) (h : ¬ unhandled w) :
    Outcome s w (cycle s) := by
  unfold unhandled at h
  simp only [not_or] at h
  obtain ⟨hR, hD, hL, hS, hB⟩ := h
  by_cases h33 : opcode w = 0x33
  · refine .of_advances hw ((decodeInstrType_eq h33).trans rfl) ?_
    show Advances _ (decodeR _ w)
    simp only [decodeR, field_rd]
    refine executeR_advances _ (fun hc => hR ⟨h33, fun h0 => ?_, hc.2⟩) _ _ _ _ (field_functR w)
    exact hc.1 ((field_eq_zero _).mpr h0)
  by_cases h13 : opcode w = 0x13
  · refine .of_advances hw ((decodeInstrType_eq h13).trans rfl) ?_
    show Advances _ (decodeI _ w)
    simp only [decodeI, field_funct3, field_opcode, h13]
    exact executeI_data_advances _ (fun hf => hD ⟨h13, hf⟩) _ _ _
  by_cases h03 : opcode w = 0x03
  · by_cases h7 : Isa.funct3 w = 7
    · obtain ⟨hpc, hrun⟩ := cycle_jalr hw h03 h7
      exact .jalr h03 h7 hpc hrun
    · refine .of_advances hw ((decodeInstrType_eq h03).trans rfl) ?_
      show Advances _ (decodeI _ w)
      simp only [decodeI, field_funct3, field_opcode, h03]
      exact executeI_load_advances _ (fun hf => hL ⟨h03, hf⟩) h7 _ _ _
  by_cases h23 : opcode w = 0x23
  · refine .of_advances hw ((decodeInstrType_eq h23).trans rfl) ?_
    show Advances _ (decodeS _ w)
    simp only [decodeS, field_funct3]
    exact executeS_advances _ (fun hf => hS ⟨h23, hf⟩) _ _ _
  by_cases h63 : opcode w = 0x63
  · have hrow : ∀ fn : BitVec 3, fn ∉ [2#3, 3] → (brnFun fn).isSome := by decide
    obtain ⟨f, hf⟩ := Option.isSome_iff_exists.mp (hrow _ fun hf => hB ⟨h63, hf⟩)
    exact cycle_outcome_branch hw h63 hf
  by_cases hU : opcode w = 0x37 ∨ opcode w = 0x27
  · have ht : decodeInstrType w = some .u := by
      rcases hU with hop | hop <;> exact (decodeInstrType_eq hop).trans rfl
    refine .of_advances hw ht ?_
    show Advances _ (decodeU _ w)
    simp only [decodeU, field_opcode]
    refine executeU_advances _ ?_ _ _
    rcases hU with hop | hop
    · exact .inl (by rw [hop]; rfl)
    · exact .inr (by rw [hop]; rfl)
  by_cases h6F : opcode w = 0x6F
  · obtain ⟨hpc, hrun⟩ := cycle_jal hw h6F
    exact .jal h6F hpc hrun
  · have hnone : ∀ c : BitVec 7, ¬ c = 0x33 → ¬ c = 0x13 → ¬ c = 0x03 → ¬ c = 0x23 →
        ¬ c = 0x63 → ¬ (c = 0x37 ∨ c = 0x27) → ¬ c = 0x6F →
          decodeInstrType (c.setWidth 32) = none := by
      decide
    have ht := (decodeInstrType_eq rfl).trans (hnone _ h33 h13 h03 h23 h63 hU h6F)
    refine .invalid ht ?_
    unfold cycle processInstruction
    simp only [hw, ht]

/-! ## Progress -/

/-- A `JALR` that goes to its own address, which is odd. -/
def oddSelfJalr (s : Sim) (w : BitVec 32) : Prop :=
  opcode w = 0x03 ∧ Isa.funct3 w = 7 ∧
    s.current.regs (Isa.rs1 w) + (immI w).signExtend 32 = s.current.pc ∧
    s.current.pc.getLsbD 0 = true

instance (s : Sim) (w : BitVec 32) : Decidable (oddSelfJalr s w) :=
  inferInstanceAs (Decidable (_ ∧ _))

theorem getLsbD_and_not_1 (x : BitVec 32) : (x &&& 0xFFFFFFFE).getLsbD 0 = false := by
  rw [BitVec.getLsbD_and]
  exact Bool.and_false _

/-- Clearing the lowest bit of an even address. -/
theorem and_not_1_of_even {x : BitVec 32} (h : x.getLsbD 0 = false) : x &&& 0xFFFFFFFE = x := by
  apply BitVec.eq_of_getLsbD_eq
  intro i hi
  rw [BitVec.getLsbD_and]
  by_cases hi0 : i = 0
  · subst hi0
    rw [h, Bool.false_and]
  · have hone : (0xFFFFFFFE : BitVec 32).getLsbD i = true := by
      interval_cases i
      · exact absurd rfl hi0
      all_goals rfl
    rw [hone, Bool.and_true]

/-- A jump has a case. -/
theorem SelfJump.not_unhandled (h : SelfJump s w) : ¬ unhandled w := by
  intro hu
  have hop : opcode w = 0x63 ∧ Isa.funct3 w ∉ [2#3, 3] ∨ opcode w = 0x6F ∨
      opcode w = 0x03 ∧ Isa.funct3 w ∉ [3#3, 6] := by
    cases h with
    | branch hop hf =>
        have hrow : ∀ fn : BitVec 3, fn ∈ [2#3, 3] → brnFun fn = none := by decide
        refine .inl ⟨hop, fun hmem => ?_⟩
        rw [hrow _ hmem] at hf
        exact absurd hf.symm (Option.some_ne_none _)
    | jal hop => exact .inr (.inl hop)
    | jalr hop hf => exact .inr (.inr ⟨hop, by rw [hf]; decide⟩)
  unfold unhandled at hu
  rcases hop with ⟨hop, hf⟩ | hop | ⟨hop, hf⟩ <;> simp [hop] at hu
  · simp [hu] at hf
  · simp [hu] at hf

/-- The architecture does not jump to an odd address. -/
theorem SelfJump.not_odd (h : SelfJump s w) : ¬ oddSelfJalr s w := by
  rintro ⟨hop, -, -, hodd⟩
  cases h with
  | branch hop' => exact absurd (hop.symm.trans hop') (by decide)
  | jal hop' => exact absurd (hop.symm.trans hop') (by decide)
  | jalr _ _ heven =>
      have hbit := getLsbD_and_not_1 (s.current.regs (Isa.rs1 w) + (immI w).signExtend 32)
      rw [heven, hodd] at hbit
      exact Bool.false_ne_true hbit.symm

/-- A handled word that leaves the program counter as it is. -/
theorem Outcome.moves_on {s' : Sim} (h : Outcome s w s') (hodd : ¬ oddSelfJalr s w) :
    s'.current.pc ≠ s.current.pc ∨ s'.runBit = false ∨ SelfJump s w := by
  refine or_iff_not_imp_left.mpr fun hstay => ?_
  have hpc := not_not.mp hstay
  cases h with
  | invalid _ run => exact .inl run
  | advance pc =>
      have hne : s.current.pc + 4 ≠ s.current.pc := by bv_omega
      exact absurd (pc.symm.trans hpc) hne
  | branch hop hf taken pc => exact .inr (.branch hop hf taken (pc.symm.trans hpc))
  | jal hop pc => exact .inr (.jal hop (pc.symm.trans hpc))
  | jalr hop hf pc =>
      have htarget := pc.symm.trans hpc
      have heven : s.current.pc.getLsbD 0 = false := by
        rw [← Bool.not_eq_true]
        exact fun hbit => hodd ⟨hop, hf, htarget, hbit⟩
      refine .inr (.jalr hop hf ?_)
      rw [htarget, and_not_1_of_even heven]

/-- A running simulator goes to another address, stops, or was told to stay, exactly when
the word has a case and is no `JALR` to its own odd address. -/
theorem moves_on_iff (hs : s.next = s.current) (hrun : s.runBit = true)
    (hw : s.memRead s.current.pc = w) :
    ((cycle s).current.pc ≠ s.current.pc ∨ (cycle s).runBit = false ∨ SelfJump s w) ↔
      ¬ unhandled w ∧ ¬ oddSelfJalr s w := by
  constructor
  · intro h
    constructor
    · intro hu
      rw [cycle_unhandled hs hw hu] at h
      rcases h with hmove | hstop | hself
      · exact hmove rfl
      · exact Bool.false_ne_true (hstop.symm.trans hrun)
      · exact hself.not_unhandled hu
    · intro hodd
      obtain ⟨hpc, hkeep⟩ := cycle_jalr hw hodd.1 hodd.2.1
      rcases h with hmove | hstop | hself
      · exact hmove (hpc.trans hodd.2.2.1)
      · exact Bool.false_ne_true (hstop.symm.trans (hkeep.trans hrun))
      · exact hself.not_odd hodd
  · rintro ⟨hu, hodd⟩
    exact (cycle_outcome hw hu).moves_on hodd

end Cycle

/-- `ADDI x1, x0, 1` goes on. -/
theorem moves_on_addi :
    let s := loadProgram (initMemory false) [(0x2000, 0x00100093)]
    (cycle s).current.pc ≠ s.current.pc ∨ (cycle s).runBit = false ∨ SelfJump s 0x00100093 :=
  (moves_on_iff (s := loadProgram (initMemory false) [(0x2000, 0x00100093)]) rfl rfl
    (by decide +kernel)).mpr (by decide +kernel)

/-- The simulator stays at `ANDI x1, x1, 1`. -/
theorem stays_at_andi :
    ¬ ∀ (s : Sim) (w : BitVec 32), s.next = s.current → s.runBit = true →
      s.memRead s.current.pc = w →
      (cycle s).current.pc ≠ s.current.pc ∨ (cycle s).runBit = false ∨ SelfJump s w := by
  intro h
  have hmoves := h (loadProgram (initMemory false) [(0x2000, 0x0010F093)]) 0x0010F093 rfl rfl
    (by decide +kernel)
  rcases hmoves with hpc | hstop | hself
  · exact hpc (by decide +kernel)
  · exact absurd hstop (by decide +kernel)
  · exact absurd (show unhandled 0x0010F093 by decide +kernel) hself.not_unhandled

end SimpleCpu.RiscV.Iss
