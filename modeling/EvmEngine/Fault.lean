import EvmEngine.Hex

/-!
Why a frame halts abnormally, what the account store refuses, and what the engine reports to its
host. Each cause has one wording, given by its `message`.
-/

namespace EvmEngine

/-- A deterministic failure of one frame. It costs the frame its gas and its effects, and the
frame that called it sees only a zero on its stack. -/
inductive Fault
  | outOfGas
  | stackTooSmall (required available : Nat)
  | stackOverflow
  | invalidJump (destination : UInt64)
  | illegalOperation (byte : UInt8)
  | staticStateChange
  | codeTooLarge (size limit : Nat)
  | addressCollision (address : Address)
  | returnDataOutOfBounds (offset size : UInt64) (available : Nat)
  deriving DecidableEq

/-- A refusal of the account store. -/
inductive StateError
  | notFound (account : Address)
  | insufficientBalance (account : Address)
  | balanceOverflow (account : Address)
  | noCheckpoint
  deriving DecidableEq

/-- Why a configuration gives no rules. -/
inductive ConfigError
  | unknownFork (name : String)
  | overlayNotObject
  | malformedRules
  deriving DecidableEq

/-- A run that cannot go on: there is no frame to run, or it has taken more steps than it may. -/
inductive RunError
  | noFrame
  | stepLimit
  deriving DecidableEq

/-- What the engine reports to its host. -/
inductive EngineError
  | fault (cause : Fault)
  | state (cause : StateError)
  | intrinsicGas (required limit : UInt64)
  | config (cause : ConfigError)
  | run (cause : RunError)
  deriving DecidableEq

namespace Fault

def message : Fault → String
  | outOfGas => "out of gas"
  | stackTooSmall required available =>
      "stack too small: required " ++ toString required ++ ", available " ++ toString available
  | stackOverflow => "stack overflow"
  | invalidJump destination => "invalid jump destination: " ++ toString destination.toNat
  | illegalOperation byte => "illegal operation: " ++ Hex.upperByte byte
  | staticStateChange => "state change attempted in static call"
  | codeTooLarge size limit =>
      "code size exceeded: " ++ toString size ++ " > " ++ toString limit ++ " bytes"
  | addressCollision address => "contract already exists at address: " ++ Hex.ofAddress address
  | returnDataOutOfBounds offset size available =>
      "return data out of bounds: offset " ++ toString offset.toNat ++ ", size "
        ++ toString size.toNat ++ ", available " ++ toString available

end Fault

namespace StateError

def message : StateError → String
  | notFound account => "account not found: " ++ Hex.ofAddress account
  | insufficientBalance account => "insufficient balance for " ++ Hex.ofAddress account
  | balanceOverflow account => "balance overflow for " ++ Hex.ofAddress account
  | noCheckpoint => "no open checkpoint"

end StateError

namespace ConfigError

def message : ConfigError → String
  | unknownFork name => "unknown fork: " ++ name
  | overlayNotObject => "rule overrides must be a JSON object"
  | malformedRules => "malformed rules"

end ConfigError

namespace RunError

def message : RunError → String
  | noFrame => "frame stack underflow"
  | stepLimit => "step limit reached"

end RunError

namespace EngineError

def message : EngineError → String
  | fault cause => "exception: " ++ cause.message
  | state cause => "state error: " ++ cause.message
  | intrinsicGas required limit =>
      "intrinsic gas too low: required " ++ toString required.toNat ++ ", limit "
        ++ toString limit.toNat
  | config cause => "configuration error: " ++ cause.message
  | run cause => "internal error: " ++ cause.message

end EngineError
end EvmEngine
