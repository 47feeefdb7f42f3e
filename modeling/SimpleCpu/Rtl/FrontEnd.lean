import SimpleCpu.Pipeline.Basic

/-!
# What the two pipelines share

The issue register, the branch predictor, the forwarding selects of the hazard unit and
the addresses and words the testbench carries along are the same for both instruction
sets, and so is what the general pipeline sees of them.
-/

namespace SimpleCpu.Rtl

open SimpleCpu.Pipeline

abbrev Word := BitVec 32

/-! ## Registers -/

/-- `iss_pipe_reg` -/
structure IssPipeReg where
  nextPc : BitVec 32 := 0
  instr : BitVec 32 := 0
  brnPred : Bool := false
  currPc : BitVec 32 := 0
  nextPredPc : BitVec 32 := 0

/-- The address and the word of each stage, as the testbench keeps them. -/
structure Testbench where
  pcIss : BitVec 32 := 0
  instrIss : BitVec 32 := 0
  pcEx : BitVec 32 := 0
  instrEx : BitVec 32 := 0
  pcMem : BitVec 32 := 0
  instrMem : BitVec 32 := 0
  pcWb : BitVec 32 := 0
  instrWb : BitVec 32 := 0

/-- What the general pipeline sees of the issue register. -/
def IssPipeReg.abs (r : IssPipeReg) : Fetched Word where
  instr := r.instr
  pc := r.currPc
  nextSeq := r.nextPc
  pred := r.brnPred
  predPc := r.nextPredPc

/-- What the general pipeline sees of the testbench. -/
def Testbench.abs (tb : Testbench) : Shadow Word where
  iss := (tb.pcIss, tb.instrIss)
  ex := (tb.pcEx, tb.instrEx)
  mid := (tb.pcMem, tb.instrMem)
  wb := (tb.pcWb, tb.instrWb)

/-- The testbench's registers at a rising edge. -/
def Testbench.clock (tb : Testbench) (currPc instr : BitVec 32) : Testbench where
  pcIss := currPc
  instrIss := instr
  pcEx := tb.pcIss
  instrEx := tb.instrIss
  pcMem := tb.pcEx
  instrMem := tb.instrEx
  pcWb := tb.pcMem
  instrWb := tb.instrMem

/-! ## Branch predictor -/

/-- `one_level_bpred`: 1024 counters and targets, indexed by the low ten bits of an
address. -/
structure Bpred where
  bpred : BitVec 10 → BitVec 2
  btb : BitVec 10 → BitVec 32

/-- `two_bit_sat_counter` -/
def twoBitSatCounter (count : BitVec 2) (op : Bool) : BitVec 2 :=
  if count = 0b00 then (if op then count else count + 1)
  else if count = 0b01 then (if op then count - 1 else count + 1)
  else if count = 0b10 then (if op then count + 1 else count - 1)
  else (if op then count else count - 1)

/-- `brn_takeness_bpred_o` -/
def Bpred.takeness (b : Bpred) (addr : BitVec 32) : Bool :=
  (b.bpred (addr.extractLsb' 0 10))[1]

/-- `brn_target_addr_bpred_o` -/
def Bpred.targetAddr (b : Bpred) (addr : BitVec 32) : BitVec 32 :=
  if b.takeness addr then b.btb (addr.extractLsb' 0 10) else 0

/-- The feedback of a branch in the execute stage. -/
def Bpred.feedback (b : Bpred) (brn : Bool) (addr : BitVec 32) (fdback : Bool)
    (btbAddr : BitVec 32) : Bpred :=
  let i := addr.extractLsb' 0 10
  if brn then
    { bpred := Function.update b.bpred i (twoBitSatCounter (b.bpred i) fdback)
      btb := if !fdback then Function.update b.btb i btbAddr else b.btb }
  else b

/-! ## Hazard unit -/

/-- The select `fwd_p1_ex_mem_hz` or `fwd_p2_ex_mem_hz` of a port that reads `rs`. -/
def fwdSelect (rs : BitVec 5) (rfEnMem : Bool) (rdMem : BitVec 5) (rfEnWb : Bool)
    (rdWb : BitVec 5) : BitVec 2 :=
  if rfEnMem && rdMem != 0 && rdMem == rs then 0b10
  else if rfEnWb && rdWb != 0 && rdWb == rs then 0b01
  else 0b00

end SimpleCpu.Rtl
