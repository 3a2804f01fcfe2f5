import EvmEngine.BlockHashes
import EvmEngine.Bytes
import EvmEngine.Calls
import EvmEngine.Config
import EvmEngine.CreateAddress
import EvmEngine.Decimal
import EvmEngine.Engine
import EvmEngine.Exec
import EvmEngine.Fault
import EvmEngine.Fork
import EvmEngine.Frame
import EvmEngine.Hex
import EvmEngine.Instruction
import EvmEngine.Instruction.Compute
import EvmEngine.Instruction.Data
import EvmEngine.Instruction.Query
import EvmEngine.Instruction.System
import EvmEngine.Json
import EvmEngine.Json.Merge
import EvmEngine.Json.Print
import EvmEngine.Json.Record
import EvmEngine.JumpDests
import EvmEngine.Keccak
import EvmEngine.Ledger
import EvmEngine.Machine
import EvmEngine.Memory
import EvmEngine.Message
import EvmEngine.Modular
import EvmEngine.Opcode
import EvmEngine.OpcodeTable
import EvmEngine.Precompile
import EvmEngine.Precompile.ModExp
import EvmEngine.Pricing
import EvmEngine.Proofs.Calls.Checkpoints
import EvmEngine.Proofs.Calls.Code
import EvmEngine.Proofs.Calls.Deposit
import EvmEngine.Proofs.Calls.Gas
import EvmEngine.Proofs.Calls.Lockstep
import EvmEngine.Proofs.Calls.Shape
import EvmEngine.Proofs.Calls.Slots
import EvmEngine.Proofs.Effects
import EvmEngine.Proofs.Engine.Atomicity
import EvmEngine.Proofs.Engine.BlockHashes
import EvmEngine.Proofs.Engine.Chronicle
import EvmEngine.Proofs.Engine.Code
import EvmEngine.Proofs.Engine.Creation
import EvmEngine.Proofs.Engine.EmptyFrame
import EvmEngine.Proofs.Engine.Errors
import EvmEngine.Proofs.Engine.Estimate
import EvmEngine.Proofs.Engine.Gas
import EvmEngine.Proofs.Engine.InitialValues
import EvmEngine.Proofs.Engine.Interruption
import EvmEngine.Proofs.Engine.Lockstep
import EvmEngine.Proofs.Engine.Refunds
import EvmEngine.Proofs.Engine.Search
import EvmEngine.Proofs.Engine.Shape
import EvmEngine.Proofs.Engine.Value
import EvmEngine.Proofs.Engine.WellFormed
import EvmEngine.Proofs.Exec.Arity
import EvmEngine.Proofs.Exec.Counter
import EvmEngine.Proofs.Exec.Lockstep
import EvmEngine.Proofs.Exec.Moves
import EvmEngine.Proofs.Exec.StackSafety
import EvmEngine.Proofs.Frame.Absorb
import EvmEngine.Proofs.Frame.Boundary
import EvmEngine.Proofs.Frame.Deeds
import EvmEngine.Proofs.Frame.Works
import EvmEngine.Proofs.Instruction.Arity
import EvmEngine.Proofs.Instruction.Costs
import EvmEngine.Proofs.Instruction.Counter
import EvmEngine.Proofs.Instruction.Deeds
import EvmEngine.Proofs.Instruction.Ledger
import EvmEngine.Proofs.Instruction.Lockstep
import EvmEngine.Proofs.Instruction.Moves
import EvmEngine.Proofs.Instruction.NetMetering
import EvmEngine.Proofs.Instruction.Refunds
import EvmEngine.Proofs.Instruction.Requests
import EvmEngine.Proofs.Instruction.SelfDestruct
import EvmEngine.Proofs.Instruction.StackSafety
import EvmEngine.Proofs.Instruction.Storage
import EvmEngine.Proofs.Instruction.Table
import EvmEngine.Proofs.Json.Merge
import EvmEngine.Proofs.Json.Parse
import EvmEngine.Proofs.Json.Print
import EvmEngine.Proofs.Json.Record
import EvmEngine.Proofs.Ledger.Bisimulation
import EvmEngine.Proofs.Ledger.Cleared
import EvmEngine.Proofs.Ledger.Code
import EvmEngine.Proofs.Ledger.Flow
import EvmEngine.Proofs.Ledger.Initial
import EvmEngine.Proofs.Ledger.Saved
import EvmEngine.Proofs.Ledger.Snapshots
import EvmEngine.Proofs.Ledger.Supply
import EvmEngine.Proofs.Ledger.WellFormed
import EvmEngine.Proofs.Ledger.Writes
import EvmEngine.Proofs.Machine.Checkpoints
import EvmEngine.Proofs.Machine.Chronicle
import EvmEngine.Proofs.Machine.Code
import EvmEngine.Proofs.Machine.Conservation
import EvmEngine.Proofs.Machine.Counter
import EvmEngine.Proofs.Machine.Creation
import EvmEngine.Proofs.Machine.EmptyFrame
import EvmEngine.Proofs.Machine.FailedChild
import EvmEngine.Proofs.Machine.Gas
import EvmEngine.Proofs.Machine.Growth
import EvmEngine.Proofs.Machine.History
import EvmEngine.Proofs.Machine.Interruption
import EvmEngine.Proofs.Machine.Layers
import EvmEngine.Proofs.Machine.Lockstep
import EvmEngine.Proofs.Machine.Nesting
import EvmEngine.Proofs.Machine.Refunds
import EvmEngine.Proofs.Machine.Requests
import EvmEngine.Proofs.Machine.Room
import EvmEngine.Proofs.Machine.SelfDestruct
import EvmEngine.Proofs.Machine.StackSafety
import EvmEngine.Proofs.Machine.Static
import EvmEngine.Proofs.Machine.Step
import EvmEngine.Proofs.Machine.Termination
import EvmEngine.Proofs.Machine.Unspent
import EvmEngine.Proofs.Machine.WellFormed
import EvmEngine.Proofs.Machine.WholeCall
import EvmEngine.Proofs.Memory.Bytes
import EvmEngine.Proofs.Memory.Flat
import EvmEngine.Proofs.RevertReason
import EvmEngine.Proofs.Rules.Overlay
import EvmEngine.RevertReason
import EvmEngine.Ripemd160
import EvmEngine.Rlp
import EvmEngine.Rules
import EvmEngine.Rules.Overlay
import EvmEngine.Schedule
import EvmEngine.Secp256k1
import EvmEngine.Sha256
import EvmEngine.Stack
import EvmEngine.Text.Blank
import EvmEngine.Watch
import EvmEngine.Word
import EvmEngine.World
import EvmEngine.Proofs.Pricing.Memory
import EvmEngine.Proofs.Precompile.ModExp
import EvmEngine.Proofs.Pricing.Uncapped
import EvmEngine.Proofs.Exec.Payments
import EvmEngine.Proofs.Instruction.Payments
import EvmEngine.Proofs.Machine.Payments
import EvmEngine.Proofs.Bytes
import EvmEngine.Proofs.Modular
import EvmEngine.Proofs.Word.Signed
import EvmEngine.Proofs.Precompile.Power
import EvmEngine.Proofs.Instruction.Copies
import EvmEngine.Proofs.Instruction.Footprint
import EvmEngine.Proofs.Word.Shift
import EvmEngine.Proofs.Word.Squaring
import EvmEngine.Proofs.Rlp.Grammar
import EvmEngine.Proofs.Rlp.Encoding
import EvmEngine.Proofs.CreateAddress
import EvmEngine.Proofs.Precompile.Recovery
