import SimpleCpu.RiscV.CoreCorrect
import SimpleCpu.RiscV.IssCorrect
import SimpleCpu.RiscV.HexGen.Generator

/-!
# Branch decisions

Three parts of the repository decide a branch: the execute stage from two flags of the ALU,
the simulator in `execute_b` and the generator in `decode_brn_result`.  Each is the condition
of the instruction (`Top.branchTaken_eq`, `Iss.executeB_eq`, `HexGen.Gen.decodeBrnResult_eq`),
so the three agree (`branch_decisions_agree`).
-/

namespace SimpleCpu.RiscV

open SimpleCpu.Rtl SimpleCpu.Iss SimpleCpu.RiscV.Isa

/-! ## The decisions of the pipeline and the generator -/

/-- `branch_taken_ex` with a branch in the register of the execute stage. -/
theorem Top.branchTaken_eq {s : Top} {iss : IssPipeReg} {f : BrnFun}
    (hex : s.ex.toIssueOut = issueStage false iss) (hop : opcode iss.instr = 0x63)
    (hf : brnFun (Isa.funct3 iss.instr) = some f) :
    s.branchTaken = f.eval s.rDataP1 s.rDataP2 := by
  have henc : Encodes iss.instr _ := .b hop hf
  show s.ex.toIssueOut.branchTaken (s.ex.toIssueOut.alu s.rDataP1 s.rDataP2) = _
  rw [hex, (issues henc).taken henc]

theorem HexGen.Gen.decodeBrnResult_eq (g : HexGen.Gen) {fn : BitVec 3} {f : BrnFun}
    (hf : brnFun fn = some f) (rs1 rs2 : BitVec 5) :
    g.decodeBrnResult rs1 rs2 (fn.setWidth 32) = f.eval (g.regs rs1) (g.regs rs2) := by
  rcases brnFun_cases hf with
    ⟨rfl, rfl⟩ | ⟨rfl, rfl⟩ | ⟨rfl, rfl⟩ | ⟨rfl, rfl⟩ | ⟨rfl, rfl⟩ | ⟨rfl, rfl⟩ <;> rfl

/-! ## Agreement -/

/-- With the same operands, the execute stage, the simulator and the generator decide a
branch alike, as its instruction says. -/
theorem branch_decisions_agree {iss : IssPipeReg} {f : BrnFun}
    (hop : opcode iss.instr = 0x63) (hf : brnFun (Isa.funct3 iss.instr) = some f)
    (a b : Word) :
    (∀ s : Top, s.ex.toIssueOut = issueStage false iss → s.rDataP1 = a → s.rDataP2 = b →
      s.branchTaken = f.eval a b) ∧
    (∀ (s : Iss.Sim) (rs1 rs2 imm : BitVec 32), s.current.reg rs1 = a →
      s.current.reg rs2 = b →
      Iss.executeB s (iss.instr >>> 12 &&& 0x07) rs1 rs2 imm =
        s.assign (·.setPc (if f.eval a b then
          s.current.pc + extend 12 19 imm else s.current.pc + 4))) ∧
    (∀ (g : HexGen.Gen) (rs1 rs2 : BitVec 5), g.regs rs1 = a → g.regs rs2 = b →
      g.decodeBrnResult rs1 rs2 (iss.instr >>> 12 &&& 0x07) = f.eval a b) := by
  rw [Iss.field_funct3]
  refine ⟨?_, ?_, ?_⟩
  · rintro s hex rfl rfl
    exact Top.branchTaken_eq hex hop hf
  · rintro s rs1 rs2 imm rfl rfl
    exact Iss.executeB_eq s hf rs1 rs2 imm
  · rintro g rs1 rs2 rfl rfl
    exact HexGen.Gen.decodeBrnResult_eq g hf rs1 rs2

/-- `x1` holds the least signed number and every other register holds 1. -/
def leastInX1 (i : BitVec 5) : Word := if i = 1 then 0x80000000 else 1

/-- `BLT x1, x2, +8` -/
def bltIss : IssPipeReg := { instr := 0x0020C463 }

def bltTop : Top :=
  { Top.cleared fun _ => 0 with
    ex :=
      { toIssueOut := issueStage false bltIss
        rDataP1 := leastInX1 1
        rDataP2 := leastInX1 2 } }

def bltSim : Iss.Sim :=
  { Iss.initMemory false with current := { pc := 0x2000, regs := leastInX1 } }

def bltGen : HexGen.Gen := { HexGen.init false [] with sim := bltSim }

theorem branch_decisions_agree_blt :
    bltTop.branchTaken = true ∧
      Iss.executeB bltSim 4 1 2 8 = bltSim.assign (·.setPc 0x2008) ∧
      bltGen.decodeBrnResult 1 2 4 = true :=
  have h := branch_decisions_agree (show opcode bltIss.instr = 0x63 from rfl)
    (show brnFun (Isa.funct3 bltIss.instr) = some .blt from rfl) 0x80000000 1
  ⟨h.1 bltTop rfl rfl rfl, h.2.1 bltSim 1 2 8 rfl rfl, h.2.2 bltGen 1 2 rfl rfl⟩

end SimpleCpu.RiscV
