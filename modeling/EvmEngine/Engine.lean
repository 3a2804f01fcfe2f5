import EvmEngine.Machine

/-!
Whole messages. Around the outermost frame lies a checkpoint of the message itself, in which the
nonce of the sender is raised and the accounts that destroyed themselves are deleted; a transaction
commits it and a call rolls it back. A failed frame is rolled back inside it, so that only the nonce
stays raised.
-/

namespace EvmEngine

/-- The state an engine works on. -/
structure Session where
  ledger : Ledger
  watch : Watch

abbrev EngineM := EStateM EngineError Session

namespace Engine

def onLedger (f : Ledger → Except StateError Ledger) : EngineM Unit := fun s =>
  match f s.ledger with
  | .ok ledger => .ok () { s with ledger }
  | .error cause => .error (.state cause) s

def ofJournaled {α : Type} (action : Journaled α) : EngineM α := fun s =>
  match action s.ledger with
  | .ok a ledger => .ok a { s with ledger }
  | .error e ledger => .error e { s with ledger }

def ofOutcome (outcome : RunOutcome) : EStateM.Result EngineError Session CallResult :=
  match outcome.result with
  | .ok result => .ok result ⟨outcome.ledger, outcome.watch⟩
  | .error e => .error e ⟨outcome.ledger, outcome.watch⟩

/-- Takes a result that is there at once, or runs the frame that is to be entered. -/
def runPrepared (host : Host) : Prepared → EngineM CallResult
  | .finished result => pure result
  | .enter root => fun s => ofOutcome (Machine.run host root s.ledger s.watch)

def intrinsicGas (host : Host) (message : Message) : UInt64 :=
  Gas.intrinsic host.rules.gas message.data message.isCreate

/-- The intrinsic cost, if the gas limit covers it. -/
def checkIntrinsic (host : Host) (message : Message) : Except EngineError UInt64 :=
  let required := intrinsicGas host message
  if message.gasLimit < required then .error (.intrinsicGas required message.gasLimit)
  else .ok required

/-- The outermost call of a message. -/
def rootCall (message : Message) (callee : Address) (gas : UInt64) : CallRequest where
  scheme := .call
  gas
  caller := message.caller
  address := callee
  codeAddress := callee
  value := message.value
  transfersValue := message.value ≠ 0
  input := message.data
  outOffset := 0
  outLength := 0
  isStatic := false

/-- The outermost creation of a message. -/
def rootCreate (message : Message) (gas : UInt64) : CreateRequest where
  gas
  creator := message.caller
  value := message.value
  initCode := message.data
  salt := none

/-- Sets up the outermost frame. The nonce is the sender's before it was raised. -/
def prepareRoot (host : Host) (block : Block) (message : Message) (nonce gas : UInt64) :
    Journaled Prepared := do
  let tx : TxContext := ⟨message.caller, message.gasPrice, block⟩
  match message.target with
  | some callee => (rootCall message callee gas).prepare host tx 0
  | none =>
      if (← get).balance message.caller < message.value then return .finished (.refusal gas)
      (rootCreate message gas).enter host tx 0 (CreateAddress.ofNonce message.caller nonce)

/-- The refund counter at the end: that of the frames, and a refund for each account deleted. -/
def refundCounter (rules : Rules) (result : CallResult) : Int64 :=
  let perAccount := (Gas.asRefund rules.gas.selfDestructRefund).toInt
  let total := min (perAccount * result.destroyed.length) Int64.maxValue.toInt
  Gas.addRefund result.refund (Int64.ofInt total)

/-- The gas that is paid back: none unless the message succeeded. -/
def refundOf (rules : Rules) (gasLimit : UInt64) (result : CallResult) : UInt64 :=
  if result.success then Gas.cappedRefund (gasLimit - result.gasLeft) (refundCounter rules result)
  else 0

/-- Restates the result of the outermost frame for the message as a whole. -/
def settle (rules : Rules) (gasLimit : UInt64) (result : CallResult) : CallResult :=
  let refund := refundOf rules gasLimit result
  let gasLeft := result.gasLeft + refund
  { result with gasLeft, gasUsed := gasLimit - gasLeft, refund := Gas.asRefund refund }

/-- Runs the outermost frame of a message. -/
def runRoot (host : Host) (block : Block) (message : Message) (nonce gas : UInt64) :
    EngineM CallResult := do
  runPrepared host (← ofJournaled (prepareRoot host block message nonce gas))

/-- Deletes the accounts that destroyed themselves and restates the result for the message. -/
def conclude (host : Host) (message : Message) (result : CallResult) : EngineM CallResult := do
  if result.success then
    modify fun s => { s with ledger := result.destroyed.foldl Ledger.delete s.ledger }
  return settle host.rules message.gasLimit result

/-- Runs a message inside a checkpoint that is already open. -/
def execute (host : Host) (block : Block) (message : Message) (intrinsic : UInt64) :
    EngineM CallResult := do
  let nonce := (← get).ledger.nonce message.caller
  modify fun s => { s with ledger := s.ledger.bumpNonce message.caller }
  conclude host message (← runRoot host block message nonce (message.gasLimit - intrinsic))

/-- Runs an action in a checkpoint and then closes that in one of two ways. -/
def bracket {α : Type} (action : EngineM α) (onOk onError : Ledger → Except StateError Ledger) :
    EngineM α := fun s =>
  match action { s with ledger := s.ledger.checkpoint } with
  | .ok a s =>
      match onLedger onOk s with
      | .ok () s => .ok a s
      | .error e s => .error e s
  | .error cause s =>
      match onLedger onError s with
      | .ok () s => .error cause s
      | .error e s => .error e s

def checked (host : Host) (message : Message) (action : UInt64 → EngineM CallResult) :
    EngineM CallResult := fun s =>
  match checkIntrinsic host message with
  | .ok intrinsic => action intrinsic s
  | .error e => .error e s

/-- Runs a message and keeps what it does. -/
def transact (host : Host) (block : Block) (message : Message) : EngineM CallResult :=
  checked host message fun intrinsic =>
    bracket (execute host block message intrinsic) Ledger.commit Ledger.rollback

/-- Runs a message and undoes what it does. -/
def call (host : Host) (block : Block) (message : Message) : EngineM CallResult :=
  checked host message fun intrinsic =>
    bracket (execute host block message intrinsic) Ledger.rollback Ledger.rollback

/-- Narrows the gap between a gas limit that fails and one that succeeds, until they are next to
each other. -/
def narrow (host : Host) (block : Block) (message : Message) :
    Nat → UInt64 → UInt64 → EngineM UInt64
  | 0, _, passing => pure passing
  | fuel + 1, failing, passing => do
      if passing - failing ≤ 1 then return passing
      let middle := failing + (passing - failing) / 2
      let result ← call host block { message with gasLimit := middle }
      if result.success then narrow host block message fuel failing middle
      else narrow host block message fuel middle passing

/-- The smallest gas limit found with which a message succeeds, by halving; none where it does not
succeed with its own limit. -/
def estimateGas (host : Host) (block : Block) (message : Message) : EngineM (Option UInt64) := do
  let intrinsic ←
    match checkIntrinsic host message with
    | .ok intrinsic => pure intrinsic
    | .error e => throw e
  let result ← call host block message
  if !result.success then return none
  let failing := if intrinsic = 0 then 0 else intrinsic - 1
  return some (← narrow host block message 64 failing message.gasLimit)

/-- Runs each message on a copy of its own of the same state. -/
def simulateBatch (host : Host) (block : Block) (messages : List Message) (s : Session) :
    List (Except EngineError CallResult) :=
  messages.map fun message =>
    match transact host block message s with
    | .ok result _ => .ok result
    | .error e _ => .error e

end Engine
end EvmEngine
