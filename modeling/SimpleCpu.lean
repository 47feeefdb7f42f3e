import SimpleCpu.Mips.HexGen.Addresses
import SimpleCpu.Mips.HexGen.Bounds
import SimpleCpu.Mips.HexGen.Directed
import SimpleCpu.Mips.HexGen.Replay
import SimpleCpu.Mips.InStep
import SimpleCpu.Mips.JumpTarget
import SimpleCpu.Mips.PipelineBench
import SimpleCpu.Mips.Programs
import SimpleCpu.Mips.RdZero
import SimpleCpu.Mips.SignedCompare
import SimpleCpu.Mips.SingleCycleBench
import SimpleCpu.Mips.SubWord
import SimpleCpu.Mips.Textbook.Bench
import SimpleCpu.Mips.Textbook.DataMemory
import SimpleCpu.Mips.Textbook.Events
import SimpleCpu.Mips.Textbook.ZeroReg
import SimpleCpu.Mips.VariableShifts
import SimpleCpu.RiscV.AluReference
import SimpleCpu.RiscV.CoSim
import SimpleCpu.RiscV.DecodeAgreement
import SimpleCpu.RiscV.HexGen.Rooms
import SimpleCpu.RiscV.Immediates
import SimpleCpu.RiscV.Jalr
import SimpleCpu.RiscV.Learning
import SimpleCpu.RiscV.Loads
import SimpleCpu.RiscV.PipelineBench
import SimpleCpu.RiscV.Programs
import SimpleCpu.RiscV.ShiftRight
import SimpleCpu.Bits.Carries
import SimpleCpu.CoSim.HexText
import SimpleCpu.HexGen.Written
import SimpleCpu.Mips.HexGen.MainLoop
import SimpleCpu.Mips.HexGen.Tested
import SimpleCpu.RiscV.HexGen.MainLoop
