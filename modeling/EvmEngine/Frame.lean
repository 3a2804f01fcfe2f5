import EvmEngine.JumpDests
import EvmEngine.Memory
import EvmEngine.Message
import EvmEngine.Pricing
import EvmEngine.Stack

/-!
One nested run of code: what was fixed when it was entered, and its own counter, gas, stack, memory
and buffers. An operation that fails leaves the frame as it was.
-/

namespace EvmEngine

/-- What is fixed when a frame is entered. -/
structure Environment where
  kind : FrameKind
  /-- The account whose storage and balance the code acts on. -/
  address : Address
  /-- The account the code comes from. -/
  codeAddress : Address
  caller : Address
  origin : Address
  value : Word
  data : ByteArray
  gasPrice : Word
  block : Block
  depth : UInt64
  /-- No state may change in this frame or below it. -/
  isStatic : Bool
  deriving DecidableEq

/-- Where a result goes in the frame that asked for it. -/
inductive ReturnTarget
  /-- The output is copied to a span of memory. -/
  | span (offset length : Nat)
  /-- The address of the new account is pushed. -/
  | account (address : Address)
  deriving DecidableEq

inductive Halt
  | running
  | stopped
  | reverted
  | faulted (cause : Fault)
  deriving DecidableEq

structure Frame where
  env : Environment
  target : ReturnTarget
  code : ByteArray
  jumpDests : JumpDests
  pc : Nat
  gasLimit : UInt64
  /-- The gas not yet spent. -/
  gas : UInt64
  refund : Int64
  stack : Stack
  memory : Memory
  /-- The output of the last child. -/
  returnData : ByteArray
  /-- What this frame hands back. -/
  output : ByteArray
  logs : Array Log
  destroyed : List Address
  halt : Halt

namespace Frame

/-- A frame about to run its first instruction. -/
def start (env : Environment) (target : ReturnTarget) (code : ByteArray) (gas : UInt64) :
    Frame where
  env
  target
  code
  jumpDests := JumpDests.ofCode code
  pc := 0
  gasLimit := gas
  gas
  refund := 0
  stack := .empty
  memory := .empty
  returnData := ByteArray.empty
  output := ByteArray.empty
  logs := #[]
  destroyed := []
  halt := .running

def isRunning (f : Frame) : Bool :=
  f.halt == .running

/-- The byte at the counter, none past the end of the code. -/
def currentByte? (f : Frame) : Option UInt8 :=
  f.code[f.pc]?

/-- Moves the counter forward, up to the largest machine integer. -/
def advance (f : Frame) (n : Nat) : Frame :=
  { f with pc := min (f.pc + n) (UInt64.size - 1) }

def jump (f : Frame) (destination : Word) : Except Fault Frame :=
  let pc := destination.clamp
  if f.jumpDests.contains pc.toNat then .ok { f with pc := pc.toNat }
  else .error (.invalidJump pc)

/-- Ends a frame that is running; one that has ended stays as it is. -/
def halted (f : Frame) (halt : Halt) : Frame :=
  if f.isRunning then { f with halt } else f

def spend (f : Frame) (amount : UInt64) : Except Fault Frame :=
  if f.gas < amount then .error .outOfGas else .ok { f with gas := f.gas - amount }

/-- Takes back gas that a child did not use. -/
def returnGas (f : Frame) (amount : UInt64) : Frame :=
  { f with gas := Gas.satAdd f.gas amount }

def addRefund (f : Frame) (delta : Int64) : Frame :=
  { f with refund := Gas.addRefund f.refund delta }

/-- Pays for and performs the growth of memory that covers a span, and gives the span as numbers.
An empty span costs nothing, wherever it is. -/
def chargeMemory (f : Frame) (offset length : Word) (gas : GasSchedule) :
    Except Fault ((Nat × Nat) × Frame) :=
  if length = 0 then .ok ((0, 0), f)
  else
    let last := offset.toNat + length.toNat
    if UInt64.size ≤ last then .error .outOfGas
    else do
      let cost := Gas.memoryExpansionCost (Gas.ofLength f.memory.words) (Gas.words last)
        gas.memoryWord gas.memoryQuadDivisor
      let f ← f.spend cost
      return ((offset.toNat, length.toNat),
        { f with memory := f.memory.extend offset.toNat length.toNat })

def requireMutable (f : Frame) : Except Fault Unit :=
  if f.env.isStatic then .error .staticStateChange else .ok ()

def push (f : Frame) (w : Word) : Except Fault Frame := do
  let stack ← f.stack.push w
  return { f with stack }

def pushLog (f : Frame) (log : Log) : Frame :=
  { f with logs := f.logs.push log }

/-- Notes an account for deletion, once. -/
def recordDestroyed (f : Frame) (a : Address) : Frame :=
  if f.destroyed.contains a then f else { f with destroyed := f.destroyed ++ [a] }

/-- Takes over the effects of a successful child. -/
def merge (f : Frame) (child : CallResult) : Frame :=
  let f := { f with logs := f.logs ++ child.logs }
  child.destroyed.foldl recordDestroyed (f.addRefund child.refund)

/-- The result of a frame that has ended. -/
def result (f : Frame) : CallResult :=
  match f.halt with
  | .stopped =>
      { verdict := .success
        gasUsed := f.gasLimit - f.gas
        gasLeft := f.gas
        refund := f.refund
        returnData := f.output
        logs := f.logs
        created := none
        destroyed := f.destroyed }
  | .reverted =>
      { verdict := .reverted
        gasUsed := f.gasLimit - f.gas
        gasLeft := f.gas
        refund := 0
        returnData := f.output
        logs := #[]
        created := none
        destroyed := [] }
  | .faulted cause => .ofFault f.gasLimit cause
  | .running => .ofFault f.gasLimit .outOfGas

/-- Pushes the word that tells the outcome and, on success, takes over the child's effects. -/
def acknowledge (result : CallResult) (flag : Word) : EStateM Fault Frame Unit := do
  match (← get).push flag with
  | .ok f => set f
  | .error cause => throw cause
  if result.success then modify (·.merge result)

/-- What a child's result does to the frame that waited for it: unused gas, output, a word that
tells the outcome and, on success, the child's effects. Only the push can fail, and what came before
it stays. -/
def absorb (result : CallResult) (target : ReturnTarget) : EStateM Fault Frame Unit := do
  modify (·.returnGas result.gasLeft)
  let flag : Word ←
    match target with
    | .span offset length => do
        modify fun f =>
          { f with
            memory := f.memory.extendAndWrite offset result.returnData length true
            returnData := result.returnData }
        pure (Word.ofBool result.success)
    | .account _ => do
        modify fun f =>
          { f with returnData := if result.success then ByteArray.empty else result.returnData }
        pure (match result.created with
          | some address => if result.success then address.toWord else 0
          | none => 0)
  acknowledge result flag

end Frame
end EvmEngine
