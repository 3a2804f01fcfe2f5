import EvmEngine.Opcode
import EvmEngine.Fault

/-!
What goes into the engine and what comes out: the block, the message, the logs, and the result of a
frame.
-/

namespace EvmEngine

/-- What code can see of the block. -/
structure Block where
  number : UInt64
  timestamp : UInt64
  coinbase : Address
  difficulty : Word
  gasLimit : UInt64
  chainId : UInt64
  deriving DecidableEq

namespace Block

def genesis : Block := ⟨0, 0, 0, 0, 30000000, 1⟩

end Block

/-- A transaction that is already validated and paid for. -/
structure Message where
  caller : Address
  /-- The account called; none creates one, and the data is its init code. -/
  target : Option Address
  value : Word
  data : ByteArray
  /-- Covers the intrinsic cost as well. -/
  gasLimit : UInt64
  gasPrice : Word
  deriving DecidableEq

namespace Message

def isCreate (m : Message) : Bool :=
  m.target.isNone

end Message

/-- How a frame was entered. -/
inductive FrameKind
  | message (scheme : CallScheme)
  | creation (scheme : CreateScheme)
  deriving DecidableEq

namespace FrameKind

def all : List FrameKind :=
  [message .call, message .callCode, message .delegateCall, message .staticCall,
    creation .byNonce, creation .bySalt]

def isCreate : FrameKind → Bool
  | message _ => false
  | creation _ => true

def name : FrameKind → String
  | message .call => "Call"
  | message .callCode => "CallCode"
  | message .delegateCall => "DelegateCall"
  | message .staticCall => "StaticCall"
  | creation .byNonce => "Create"
  | creation .bySalt => "Create2"

end FrameKind

structure Log where
  address : Address
  topics : List Hash
  data : ByteArray
  deriving DecidableEq

/-- How a frame ended. A refusal is a frame that was never entered, because the calls are nested too
deeply or the balance is too small, and costs nothing. -/
inductive Verdict
  | success
  | reverted
  | faulted (cause : Fault)
  | refused
  deriving DecidableEq

/-- The result of one frame. -/
structure CallResult where
  verdict : Verdict
  gasUsed : UInt64
  gasLeft : UInt64
  /-- What the refund counter of the frame and its successful children came to. -/
  refund : Int64
  returnData : ByteArray
  /-- The logs of the frame and its successful children, in the order of execution. -/
  logs : Array Log
  created : Option Address
  /-- The accounts to be deleted at the end of the transaction, each once. -/
  destroyed : List Address
  deriving DecidableEq

namespace CallResult

/-- A success that ran no code. -/
def plainSuccess (gasLimit gasUsed : UInt64) (returnData : ByteArray) : CallResult where
  verdict := .success
  gasUsed
  gasLeft := if gasLimit < gasUsed then 0 else gasLimit - gasUsed
  refund := 0
  returnData
  logs := #[]
  created := none
  destroyed := []

/-- A failure that costs all the gas. -/
def ofFault (gasLimit : UInt64) (cause : Fault) : CallResult where
  verdict := .faulted cause
  gasUsed := gasLimit
  gasLeft := 0
  refund := 0
  returnData := ByteArray.empty
  logs := #[]
  created := none
  destroyed := []

/-- A failure that costs no gas. -/
def refusal (gasLimit : UInt64) : CallResult where
  verdict := .refused
  gasUsed := 0
  gasLeft := gasLimit
  refund := 0
  returnData := ByteArray.empty
  logs := #[]
  created := none
  destroyed := []

def success (r : CallResult) : Bool :=
  r.verdict == .success

end CallResult
end EvmEngine
