import Mathlib.Logic.Function.Basic
import Mathlib.Order.Nat

/-!
# Five-stage pipelines with forwarding and branch prediction

A pipeline that fetches, issues, executes, accesses memory and writes back, one
instruction a stage, with

* two operand ports that take a result from the memory stage or the write-back
  stage before the register file;
* jumps resolved in the issue stage and branches resolved in the execute stage;
* a predictor that may redirect fetch on any address.

Everything an instruction set decides is a field of `Core`: how a word is
decoded, what the execute stage computes, what is stored and what is written
back.  The predictor is a field as well, so nothing below depends on how it is
trained.  `Core.step` is one clock of the pipeline and `Core.seqStep` runs one
instruction through the same functions, with no pipeline around them.
-/

namespace SimpleCpu.Pipeline

/-- The issue register: one fetched instruction and the prediction it carries. -/
structure Fetched (W : Type) where
  instr : W
  pc : W
  nextSeq : W
  pred : Bool
  predPc : W

/-- The execute register: a decoded instruction, its prediction and the operands
read from the register file. -/
structure InExecute (W D : Type) where
  dec : D
  pred : Bool
  predPc : W
  v1 : W
  v2 : W

/-- The write-back register.  `wrEn` is the write port's enable and `fwdEn` the
enable the hazard unit looks at. -/
structure WriteBack (W R : Type) where
  valid : Bool
  wrEn : Bool
  fwdEn : Bool
  rd : R
  data : W

/-- Addresses and words observed beside the pipeline, one pair a stage. -/
structure Shadow (W : Type) where
  iss : W × W
  ex : W × W
  mid : W × W
  wb : W × W

/-- The functions of an instruction set and of a predictor.  `W` is the type of
words and addresses, `R` of register names, `D` of decoded instructions, `M` of
what the memory stage holds, `Mem` of the data memory and `P` of the predictor. -/
structure Core (W R D M Mem P : Type) where
  zeroReg : R
  zeroVal : W
  imem : W → W
  nextSeq : W → W
  decode : W → W → W → D
  jumpTarget : W → W → W → W
  issBubble : Fetched W
  exBubble : InExecute W D
  jump : D → Bool
  branch : D → Bool
  rs1 : D → R
  rs2 : D → R
  brnTarget : D → W
  seqPc : D → W
  exPc : D → W
  taken : D → W → W → Bool
  exec : D → W → W → M
  fwdEn : M → Bool
  rd : M → R
  fwdVal1 : M → Mem → W
  fwdVal2 : M → W
  finish : M → Mem → WriteBack W R
  store : M → Mem → Mem
  predict : P → W → Bool × W
  train : P → Bool → W → Bool → W → P

/-- One cycle's registers, taken right after the rising edge. -/
structure State (W R D M Mem P : Type) where
  pc : W
  iss : Fetched W
  ex : InExecute W D
  mid : M
  wb : WriteBack W R
  regs : R → W
  mem : Mem
  bpred : P
  shadow : Shadow W

/-- What a program can see between two instructions. -/
structure Arch (W R Mem : Type) where
  pc : W
  regs : R → W
  mem : Mem

variable {W R D M Mem P : Type} [DecidableEq R]

/-- The register file after the write port has been served. -/
def WriteBack.apply (w : WriteBack W R) (regs : R → W) : R → W :=
  if w.wrEn then Function.update regs w.rd w.data else regs

namespace Core

variable (C : Core W R D M Mem P)

/-! ## The pipeline -/

section Signals

variable [DecidableEq W] (s : State W R D M Mem P)

/-- The instruction in the issue stage, decoded. -/
def issDec : D := C.decode s.iss.instr s.iss.pc s.iss.nextSeq

/-- The memory stage forwards to a port that reads `r`. -/
def fwdMid (r : R) : Bool :=
  C.fwdEn s.mid && C.rd s.mid != C.zeroReg && C.rd s.mid == r

/-- The write-back stage forwards to a port that reads `r`. -/
def fwdWb (r : R) : Bool :=
  s.wb.fwdEn && s.wb.rd != C.zeroReg && s.wb.rd == r

/-- First operand of the execute stage. -/
def op1 : W :=
  if C.fwdMid s (C.rs1 s.ex.dec) then C.fwdVal1 s.mid s.mem
  else if C.fwdWb s (C.rs1 s.ex.dec) then s.wb.data else s.ex.v1

/-- Second operand of the execute stage. -/
def op2 : W :=
  if C.fwdMid s (C.rs2 s.ex.dec) then C.fwdVal2 s.mid
  else if C.fwdWb s (C.rs2 s.ex.dec) then s.wb.data else s.ex.v2

/-- The branch in the execute stage is taken. -/
def exTaken : Bool := C.taken s.ex.dec (C.op1 s) (C.op2 s)

/-- The prediction carried into the execute stage was right. -/
def exCorr : Bool :=
  (s.ex.pred == C.exTaken s) && (C.brnTarget s.ex.dec == s.ex.predPc)

def flushEx : Bool :=
  (C.exTaken s && !C.exCorr s) || (s.ex.pred && !C.exCorr s)

def flushIss : Bool :=
  ((C.exTaken s && !C.exCorr s) || C.jump (C.issDec s)) ||
    (!C.jump s.ex.dec && (s.ex.pred && !C.exCorr s))

/-- The address fetch turns to when it follows no prediction. -/
def nextCalPc : W :=
  if C.branch s.ex.dec && s.ex.pred && !C.exCorr s then
    if C.exTaken s then C.brnTarget s.ex.dec else C.seqPc s.ex.dec
  else if C.exTaken s && !(s.ex.pred && C.exCorr s) then C.brnTarget s.ex.dec
  else if C.jump (C.issDec s) then
    C.jumpTarget s.iss.instr s.iss.pc s.iss.nextSeq
  else C.nextSeq s.pc

def nextPc : W :=
  if !C.jump s.ex.dec && !C.branch s.ex.dec && s.ex.pred && !C.exCorr s then
    C.seqPc s.ex.dec
  else if !C.jump (C.issDec s) && !C.branch s.ex.dec &&
      (C.predict s.bpred s.pc).1 then
    (C.predict s.bpred s.pc).2
  else C.nextCalPc s

/-- What the issue register takes from the fetch stage. -/
def fetched : Fetched W where
  instr := C.imem s.pc
  pc := s.pc
  nextSeq := C.nextSeq s.pc
  pred := (C.predict s.bpred s.pc).1
  predPc := (C.predict s.bpred s.pc).2

/-- What the execute register takes from the issue stage, the register file having
been written first. -/
def issued : InExecute W D where
  dec := C.issDec s
  pred := s.iss.pred
  predPc := s.iss.predPc
  v1 := s.wb.apply s.regs (C.rs1 (C.issDec s))
  v2 := s.wb.apply s.regs (C.rs2 (C.issDec s))

/-- One clock. -/
def step : State W R D M Mem P where
  pc := C.nextPc s
  iss := if C.flushIss s then C.issBubble else C.fetched s
  ex := if C.flushEx s then C.exBubble else C.issued s
  mid := C.exec s.ex.dec (C.op1 s) (C.op2 s)
  wb := C.finish s.mid s.mem
  regs := s.wb.apply s.regs
  mem := C.store s.mid s.mem
  bpred := C.train s.bpred (C.branch s.ex.dec) (C.exPc s.ex.dec) (C.exCorr s)
    (C.brnTarget s.ex.dec)
  shadow :=
    { iss := (s.pc, C.imem s.pc), ex := s.shadow.iss
      mid := s.shadow.ex, wb := s.shadow.mid }

end Signals

/-- The pipeline after `t` clocks. -/
def run [DecidableEq W] (s₀ : State W R D M Mem P) : Nat → State W R D M Mem P
  | 0 => s₀
  | t + 1 => C.step (run s₀ t)

/-! ## One instruction at a time -/

section Sequential

variable (a : Arch W R Mem)

def seqDec : D := C.decode (C.imem a.pc) a.pc (C.nextSeq a.pc)

def seqTaken : Bool :=
  C.taken (C.seqDec a) (a.regs (C.rs1 (C.seqDec a))) (a.regs (C.rs2 (C.seqDec a)))

def seqMid : M :=
  C.exec (C.seqDec a) (a.regs (C.rs1 (C.seqDec a))) (a.regs (C.rs2 (C.seqDec a)))

def seqWb : WriteBack W R := C.finish (C.seqMid a) a.mem

def seqPcNext : W :=
  if C.jump (C.seqDec a) then C.jumpTarget (C.imem a.pc) a.pc (C.nextSeq a.pc)
  else if C.seqTaken a then C.brnTarget (C.seqDec a)
  else C.nextSeq a.pc

/-- One instruction from fetch to write-back. -/
def seqStep : Arch W R Mem where
  pc := C.seqPcNext a
  regs := (C.seqWb a).apply a.regs
  mem := C.store (C.seqMid a) a.mem

/-- The sequential machine after `i` instructions. -/
def seqRun : Nat → Arch W R Mem
  | 0 => a
  | i + 1 => C.seqStep (seqRun i)

end Sequential

end Core

end SimpleCpu.Pipeline
