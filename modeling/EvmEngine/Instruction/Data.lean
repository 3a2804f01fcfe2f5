import EvmEngine.Instruction.Query

/-!
The instructions that move data: between memory and the stack, from other byte strings to memory,
to storage, and to the logs.
-/

namespace EvmEngine
namespace Instruction

open Exec

def CopySource.bytes (f : Frame) : CopySource → ByteArray
  | .callData => f.env.data
  | .code => f.code

/-- Pays for the memory a copy goes to and for the words copied. -/
def chargeCopy (gas : GasSchedule) (destination size : Word) : Exec (Nat × Nat) := do
  let span ← chargeMemory gas destination size
  spend (Gas.copyCost gas span.2)
  return span

/-- Writes a window of a byte string to memory; an empty one is not written. -/
def copyWindow (destination : Nat) (bytes : ByteArray) (source : Word) (size : Nat) : Exec Unit :=
  if size = 0 then pure ()
  else modifyFrame fun f =>
    { f with
      memory := f.memory.write destination (Bytes.window bytes source.clamp.toNat size) }

def callDataLoad : Exec Unit := do
  let offset ← ofStack Stack.pop
  let f ← frame
  pushWord (Word.ofBytes (Bytes.window f.env.data offset.clamp.toNat 32))

def copy (host : Host) (source : CopySource) : Exec Unit := do
  let (destination, offset, size) ← ofStack Stack.pop3
  let span ← chargeCopy host.rules.gas destination size
  let f ← frame
  copyWindow span.1 (CopySource.bytes f source) offset span.2

/-- Copies from the output of the last child, which is not extended with zeros: a copy that goes
past its end fails. -/
def returnDataCopy (host : Host) : Exec Unit := do
  let (destination, offset, size) ← ofStack Stack.pop3
  let f ← frame
  let available := f.returnData.size
  if available < offset.clamp.toNat + size.clamp.toNat then
    fail (.returnDataOutOfBounds offset.clamp size.clamp available)
  let span ← chargeCopy host.rules.gas destination size
  copyWindow span.1 f.returnData offset span.2

def extCodeCopy (host : Host) : Exec Unit := do
  let (account, destination, offset, size) ← ofStack Stack.pop4
  let span ← chargeCopy host.rules.gas destination size
  let l ← ledger
  copyWindow span.1 (l.code account.toAddress) offset span.2

def sha3 (host : Host) : Exec Unit := do
  let (offset, size) ← ofStack Stack.pop2
  let span ← chargeMemory host.rules.gas offset size
  spend (Gas.sha3WordCost host.rules.gas span.2)
  let f ← frame
  pushWord (keccak256 (f.memory.read span.1 span.2))

def mload (host : Host) : Exec Unit := do
  let offset ← ofStack Stack.pop
  let span ← chargeMemory host.rules.gas offset 32
  let f ← frame
  pushWord (f.memory.readWord span.1)

def mstore (host : Host) : Exec Unit := do
  let (offset, value) ← ofStack Stack.pop2
  let span ← chargeMemory host.rules.gas offset 32
  modifyFrame fun f => { f with memory := f.memory.writeWord span.1 value }

def mstore8 (host : Host) : Exec Unit := do
  let (offset, value) ← ofStack Stack.pop2
  let span ← chargeMemory host.rules.gas offset 1
  modifyFrame fun f =>
    { f with memory := f.memory.writeByte span.1 (UInt8.ofNat (value.toNat % 256)) }

def sload : Exec Unit := do
  let key ← ofStack Stack.pop
  pushWord (← load key)

/-- A write to storage. With a sentry it fails where no more gas is left than the sentry asks. -/
def sstore (host : Host) : Exec Unit := do
  requireMutable
  let (key, value) ← ofStack Stack.pop2
  let f ← frame
  if host.rules.sstoreMetering = .netWithSentry ∧ f.gas ≤ host.rules.gas.sstoreSentry then
    fail .outOfGas
  let l ← ledger
  let account := f.env.address
  let cost := Gas.sstoreCost host.rules (l.initialValue account key) (l.load account key) value
  spend cost.gas
  modifyFrame (·.addRefund cost.refund)
  store key value

def log (host : Host) (topicCount : Nat) : Exec Unit := do
  requireMutable
  let (offset, size) ← ofStack Stack.pop2
  let topics ← ofStack (·.popN topicCount)
  let span ← chargeMemory host.rules.gas offset size
  spend (Gas.logDataCost host.rules.gas span.2)
  modifyFrame fun f =>
    f.pushLog { address := f.env.address, topics, data := f.memory.read span.1 span.2 }

end Instruction
end EvmEngine
