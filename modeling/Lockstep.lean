import Lockstep.Console.Board
import Lockstep.Console.ScriptedDevices
import Lockstep.FlatMemory
import Lockstep.Proofs.Move
import Lockstep.Proofs.ArmMoves
import Lockstep.Proofs.ThumbMoves
import Lockstep.Proofs.StepMoves
import Lockstep.Proofs.Frame
import Lockstep.Proofs.WellFormed
import Lockstep.Proofs.UserMode
import Lockstep.Proofs.InterruptReturn
import Lockstep.Proofs.InterruptEntry
import Lockstep.Proofs.Queue
import Lockstep.Proofs.ScheduleQueue
import Lockstep.Proofs.Carry
import Lockstep.Proofs.Console.Accesses
import Lockstep.Proofs.Console.Spares
import Lockstep.Proofs.Loop
import Lockstep.Proofs.Console.Advance
import Lockstep.Proofs.Console.Calls
import Lockstep.Proofs.Console.InStep
import Lockstep.Proofs.Console.Course
import Lockstep.Proofs.Console.Ledger
import Lockstep.Proofs.Bytes
import Lockstep.Proofs.Console.Events
import Lockstep.Proofs.Console.Cells
import Lockstep.Proofs.Console.Store
import Lockstep.Proofs.Counterpart
import Lockstep.Proofs.Kinds
import Lockstep.Proofs.ThumbAsArm
import Lockstep.Proofs.Console.Parts
import Lockstep.Proofs.Console.Derived
import Lockstep.Proofs.Console.TcmTiming
import Lockstep.Proofs.Console.Lanes
import Lockstep.Proofs.Seen
import Lockstep.Proofs.InstructionsSeen
import Lockstep.Proofs.StepSeen
import Lockstep.Proofs.Console.Isolation
import Lockstep.Proofs.Console.Record
import Lockstep.Proofs.Console.Signals
import Lockstep.Proofs.RegisterFile
import Lockstep.Proofs.Transcript
import Lockstep.Proofs.Spending
import Lockstep.Proofs.InstructionCosts
import Lockstep.Proofs.StepCosts
import Lockstep.Proofs.Failures
import Lockstep.Proofs.StepFailures
import Lockstep.Proofs.Blind
import Lockstep.Proofs.TransferCounterpart
import Lockstep.Proofs.ThumbTransfers
import Lockstep.Proofs.Console.Progress
import Lockstep.Proofs.Console.Noting
import Lockstep.Proofs.Console.Pauses
import Lockstep.Proofs.FirmwareCalls
import Lockstep.Proofs.SoftwareCalls
import Lockstep.Proofs.BlockTransfers
import Lockstep.Proofs.Console.Handlers
import Lockstep.Proofs.Console.Viewed
import Lockstep.Proofs.Console.Journals
import Lockstep.Proofs.Console.Reboot
import Lockstep.Proofs.Extension
import Lockstep.Proofs.Console.ControlRegisters
import Lockstep.Proofs.ByteMemory
import Lockstep.Proofs.Stack
import Lockstep.Proofs.PushOrder
import Lockstep.Proofs.FixedBase
import Lockstep.Proofs.SingleTransfers
import Lockstep.Proofs.UnalignedAccesses
import Lockstep.Proofs.Branches
import Lockstep.Proofs.OnePlaceShifts
import Lockstep.Proofs.Limbs
import Lockstep.Proofs.Comparison
import Lockstep.Proofs.Computations
import Lockstep.Proofs.CodeFetches
import Lockstep.Proofs.Multiplications
import Lockstep.Proofs.ExtensionArithmetic
import Lockstep.Proofs.MemoryMoves
import Lockstep.Proofs.MovedMemory
import Lockstep.Proofs.SquareRoots
import Lockstep.Proofs.Checksums
import Lockstep.Proofs.BufferAccesses
