import EvmEngine.CreateAddress
import EvmEngine.Exec
import EvmEngine.Precompile

/-!
How frames are entered and left. A child runs inside a checkpoint of its own, which is committed
when it succeeds and rolled back when it fails. A call that needs no frame opens and closes its
checkpoint at once; one that is nested too deeply or not covered by the balance opens none. When the
ledger refuses an operation while a frame is being set up or finished, that frame's checkpoint is
rolled back before the error goes on.
-/

namespace EvmEngine

/-- What every frame of a transaction shares. -/
structure TxContext where
  origin : Address
  gasPrice : Word
  block : Block
  deriving DecidableEq

namespace Environment

def tx (env : Environment) : TxContext :=
  ⟨env.origin, env.gasPrice, env.block⟩

end Environment

/-- What becomes of a request: a result at once, or a frame to run, with its checkpoint open. -/
inductive Prepared
  | finished (result : CallResult)
  | enter (frame : Frame)

abbrev Journaled := EStateM EngineError Ledger

namespace Journaled

def onLedger (f : Ledger → Except StateError Ledger) : Journaled Unit := fun l =>
  match f l with
  | .ok l => .ok () l
  | .error cause => .error (.state cause) l

/-- Rolls back the innermost checkpoint, if one is open. -/
def discard (l : Ledger) : Ledger :=
  match l.rollback with
  | .ok l => l
  | .error _ => l

/-- Runs an action and, if it fails, rolls back the innermost checkpoint. -/
def orDiscard {α : Type} (action : Journaled α) : Journaled α := fun l =>
  match action l with
  | .ok a l => .ok a l
  | .error e l => .error e (discard l)

/-- Opens a checkpoint and runs an action in it, which owns the checkpoint only if it succeeds. -/
def withinCheckpoint {α : Type} (action : Journaled α) : Journaled α := fun l =>
  orDiscard action l.checkpoint

/-- Moves value from one account to another. -/
def transfer (source destination : Address) (value : Word) : Journaled Unit := do
  onLedger (·.debit source value)
  onLedger (·.credit destination value)

end Journaled

open Journaled

namespace CallRequest

def environment (r : CallRequest) (tx : TxContext) (depth : UInt64) : Environment where
  kind := .message r.scheme
  address := r.address
  codeAddress := r.codeAddress
  caller := r.caller
  origin := tx.origin
  value := r.value
  data := r.input
  gasPrice := tx.gasPrice
  block := tx.block
  depth
  isStatic := r.isStatic

def target (r : CallRequest) : ReturnTarget :=
  .span r.outOffset r.outLength

/-- Whether the request is refused without any effect: nested too deeply, or not covered. -/
def isRefused (r : CallRequest) (rules : Rules) (l : Ledger) (depth : UInt64) : Bool :=
  rules.maxCallDepth < depth || (r.transfersValue && l.balance r.caller < r.value)

/-- Closes the checkpoint of a call to a precompiled contract with its result. -/
def finishPrecompile (r : CallRequest) (p : Precompile) : Journaled CallResult :=
  match p.run r.input r.gas with
  | .ok output => do
      onLedger Ledger.commit
      return .plainSuccess r.gas output.gasUsed output.output
  | .error _ => do
      onLedger Ledger.rollback
      return .ofFault r.gas .outOfGas

/-- Sets up a call at a depth. Only the ledger can make it fail; every other failure is a result. -/
def prepare (r : CallRequest) (host : Host) (tx : TxContext) (depth : UInt64) :
    Journaled Prepared := do
  if r.isRefused host.rules (← get) depth then return .finished (.refusal r.gas)
  let code ← withinCheckpoint do
    if r.transfersValue then transfer r.caller r.address r.value
    return (← get).code r.codeAddress
  match host.rules.precompileAt? r.codeAddress with
  | some p => return .finished (← r.finishPrecompile p)
  | none =>
      if code.isEmpty then
        onLedger Ledger.commit
        return .finished (.plainSuccess r.gas 0 ByteArray.empty)
      return .enter (Frame.start (r.environment tx depth) r.target code r.gas)

end CallRequest

namespace CreateRequest

def environment (r : CreateRequest) (tx : TxContext) (depth : UInt64) (address : Address) :
    Environment where
  kind := .creation r.scheme
  address
  codeAddress := address
  caller := r.creator
  origin := tx.origin
  value := r.value
  data := ByteArray.empty
  gasPrice := tx.gasPrice
  block := tx.block
  depth
  isStatic := false

/-- An account that has a nonce or code is never created over. -/
def collides (l : Ledger) (address : Address) : Bool :=
  l.nonce address != 0 || !(l.code address).isEmpty

/-- Makes the new account, with its first nonce and the value it is given. -/
def setUp (r : CreateRequest) (rules : Rules) (address : Address) : Journaled Unit := do
  modify (·.createAccount address)
  if rules.createNonce ≠ 0 then
    modify (·.modifyAccount address fun account =>
      { account with nonce := account.nonce + rules.createNonce })
  if r.value ≠ 0 then transfer r.creator address r.value

/-- Sets up the init frame of a creation at an address. -/
def enter (r : CreateRequest) (host : Host) (tx : TxContext) (depth : UInt64) (address : Address) :
    Journaled Prepared := do
  if collides (← get) address then return .finished (.ofFault r.gas (.addressCollision address))
  withinCheckpoint (r.setUp host.rules address)
  return .enter (Frame.start (r.environment tx depth address) (.account address) r.initCode r.gas)

/-- The address the request leads to, where the creator had this nonce. -/
def addressFor (r : CreateRequest) (nonce : UInt64) : Address :=
  match r.salt with
  | some salt => CreateAddress.ofSalt r.creator salt r.initCode
  | none => CreateAddress.ofNonce r.creator nonce

def isRefused (r : CreateRequest) (rules : Rules) (l : Ledger) (depth : UInt64) : Bool :=
  rules.maxCallDepth < depth || l.balance r.creator < r.value

/-- Raises the creator's nonce and sets up the init frame. The address is given unless the request
was refused before it was derived. -/
def prepare (r : CreateRequest) (host : Host) (tx : TxContext) (depth : UInt64) :
    Journaled (Prepared × Option Address) := do
  if r.isRefused host.rules (← get) depth then return (.finished (.refusal r.gas), none)
  let address := r.addressFor ((← get).nonce r.creator)
  modify (·.bumpNonce r.creator)
  return (← r.enter host tx depth address, some address)

end CreateRequest

namespace Frame

/-- Stores the output of a successful init frame as the code of the new account. Code that is too
long fails the creation; so does code that cannot be paid for, or it is left out, as the rules
say. -/
def depositCode (rules : Rules) (result : CallResult) (address : Address) :
    Journaled CallResult := do
  let gasLimit := result.gasUsed + result.gasLeft
  let code := result.returnData
  let result := { result with returnData := ByteArray.empty }
  match rules.maxCodeSize.filter fun limit => limit.toNat < code.size with
  | some limit => return .ofFault gasLimit (.codeTooLarge code.size limit.toNat)
  | none =>
      let deposit := Gas.codeDepositCost rules.gas code.size
      if result.gasLeft < deposit then
        if rules.failCreateOnDepositOog then return .ofFault gasLimit .outOfGas
        return { result with created := some address }
      onLedger (·.saveCode address code)
      return { result with
        gasLeft := result.gasLeft - deposit
        gasUsed := result.gasUsed + deposit
        created := some address }

/-- Finishes a frame that has ended: deposits the code of a successful creation and closes the
checkpoint. -/
def complete (f : Frame) (host : Host) : Journaled CallResult := do
  let result ←
    match f.target with
    | .account address =>
        if f.result.success then orDiscard (depositCode host.rules f.result address)
        else pure f.result
    | .span _ _ => pure f.result
  onLedger (if result.success then Ledger.commit else Ledger.rollback)
  return result

end Frame
end EvmEngine
