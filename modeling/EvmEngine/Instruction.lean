import EvmEngine.Instruction.Compute
import EvmEngine.Instruction.Data
import EvmEngine.Instruction.System

/-!
What each instruction does, apart from the check of the stack and the base price that come before
it and the move of the counter after it.
-/

namespace EvmEngine

open Exec Instruction

/-- Runs an instruction. PUSH moves the counter over its operand here. -/
def Opcode.perform (host : Host) : Opcode → Exec Control
  | stop => do
      modifyFrame (·.halted .stopped)
      return .halted
  | unary op => do
      let a ← ofStack Stack.pop
      pushWord (op.apply a)
      return .next
  | binary op => do
      let (a, b) ← ofStack Stack.pop2
      pushWord (op.apply a b)
      return .next
  | ternary op => do
      let (a, b, c) ← ofStack Stack.pop3
      pushWord (op.apply a b c)
      return .next
  | exp => do
      let (base, exponent) ← ofStack Stack.pop2
      spend (Gas.expCost host.rules.gas exponent)
      pushWord (Word.pow base exponent)
      return .next
  | sha3 => do
      Instruction.sha3 host
      return .next
  | query what => do
      pushWord (what.answer (← frame))
      return .next
  | account what => do
      let a ← ofStack Stack.pop
      pushWord (what.answer (← ledger) a.toAddress)
      return .next
  | selfBalance => do
      pushWord ((← ledger).balance (← frame).env.address)
      return .next
  | callDataLoad => do
      Instruction.callDataLoad
      return .next
  | copy source => do
      Instruction.copy host source
      return .next
  | returnDataCopy => do
      Instruction.returnDataCopy host
      return .next
  | extCodeCopy => do
      Instruction.extCodeCopy host
      return .next
  | blockHash => do
      let requested ← ofStack Stack.pop
      pushWord (blockHashAt host (← frame).env.block.number requested)
      return .next
  | pop => do
      let _ ← ofStack Stack.pop
      return .next
  | mload => do
      Instruction.mload host
      return .next
  | mstore => do
      Instruction.mstore host
      return .next
  | mstore8 => do
      Instruction.mstore8 host
      return .next
  | sload => do
      Instruction.sload
      return .next
  | sstore => do
      Instruction.sstore host
      return .next
  | jump => do
      let destination ← ofStack Stack.pop
      onFrame (·.jump destination)
      return .jumped
  | jumpIf => do
      let (destination, condition) ← ofStack Stack.pop2
      if condition = 0 then return .next
      onFrame (·.jump destination)
      return .jumped
  | jumpDest => return .next
  | push n => do
      pushWord (pushOperand (← frame) (n.val + 1))
      modifyFrame (·.advance (n.val + 1))
      return .next
  | dup n => do
      onStack (·.dup (n.val + 1))
      return .next
  | swap n => do
      onStack (·.swap (n.val + 1))
      return .next
  | log n => do
      Instruction.log host n.val
      return .next
  | create scheme => do
      return .create (← Instruction.create host scheme)
  | call scheme => do
      return .call (← Instruction.call host scheme)
  | ret => do
      haltWithOutput host .stopped
      return .halted
  | revert => do
      haltWithOutput host .reverted
      return .halted
  | selfDestruct => do
      Instruction.selfDestruct host
      return .halted

end EvmEngine
