import EvmEngine.Instruction.Query

/-!
The instructions that end a frame or ask for another one.
-/

namespace EvmEngine
namespace Instruction

open Exec

/-- Ends the frame with a span of memory as its output. -/
def haltWithOutput (host : Host) (halt : Halt) : Exec Unit := do
  let (offset, size) ← ofStack Stack.pop2
  let span ← chargeMemory host.rules.gas offset size
  modifyFrame fun f => { f with output := f.memory.read span.1 span.2 }
  modifyFrame (·.halted halt)

/-- Whether the beneficiary of a self-destruct counts as a new account. -/
def createsBeneficiary (rules : Rules) (l : Ledger) (balance : Word) (beneficiary : Address) :
    Bool :=
  if rules.emptyAccountSemantics then balance ≠ 0 && l.isEmpty beneficiary
  else !l.hasAccount beneficiary

/-- Gives the whole balance to the beneficiary and notes the account for deletion. -/
def selfDestruct (host : Host) : Exec Unit := do
  requireMutable
  let beneficiary := (← ofStack Stack.pop).toAddress
  let account := (← frame).env.address
  let l ← ledger
  let balance := l.balance account
  let surcharge := host.rules.gas.selfDestructNewAccount
  if 0 < surcharge ∧ createsBeneficiary host.rules l balance beneficiary then spend surcharge
  modifyFrame (·.recordDestroyed account)
  if beneficiary ≠ account ∧ balance ≠ 0 then
    onLedger (·.debit account balance)
    onLedger (·.credit beneficiary balance)
  modifyFrame (·.halted .stopped)

/-- The salt, where the scheme takes one from the stack. -/
def saltOperand : CreateScheme → Exec (Option Word)
  | .byNonce => pure none
  | .bySalt => do return some (← ofStack Stack.pop)

/-- Pays for a creation whose operands are known, and takes the gas of its init frame out of the
frame. -/
def requestCreate (host : Host) (value offset size : Word) (salt : Option Word) :
    Exec CreateRequest := do
  let span ← chargeMemory host.rules.gas offset size
  if salt.isSome then spend (Gas.sha3WordCost host.rules.gas span.2)
  let f ← frame
  let initCode := f.memory.read span.1 span.2
  let gas :=
    if host.rules.limitCallGas then Gas.allButOnePart f.gas host.rules.gas.callGasDivisor else f.gas
  spend gas
  return { gas, creator := f.env.address, value, initCode, salt }

def create (host : Host) (scheme : CreateScheme) : Exec CreateRequest := do
  requireMutable
  let (value, offset, size) ← ofStack Stack.pop3
  let salt ← saltOperand scheme
  requestCreate host value offset size salt

/-- Whether a scheme takes a value from the stack. -/
def hasValueOperand : CallScheme → Bool
  | .call | .callCode => true
  | .delegateCall | .staticCall => false

/-- Whether the account called counts as a new one. -/
def createsCallee (rules : Rules) (l : Ledger) (transfersValue : Bool) (callee : Address) : Bool :=
  if rules.emptyAccountSemantics then transfersValue && l.isEmpty callee
  else !l.hasAccount callee

/-- What a call costs for carrying value and for bringing an account into being. -/
def callSurcharge (rules : Rules) (l : Ledger) (scheme : CallScheme) (transfersValue : Bool)
    (callee : Address) : UInt64 :=
  (if transfersValue then rules.gas.callValue else 0)
    + (if scheme = .call ∧ createsCallee rules l transfersValue callee then
        rules.gas.callNewAccount else 0)

/-- The caller, the account acted on and the value that the callee sees. -/
def callParties (env : Environment) (callee : Address) (value : Word) :
    CallScheme → Address × Address × Word
  | .callCode => (env.address, env.address, value)
  | .delegateCall => (env.caller, env.address, env.value)
  | .call | .staticCall => (env.address, callee, value)

/-- The value, where the scheme takes one from the stack, and otherwise none. -/
def valueOperand (scheme : CallScheme) : Exec Word :=
  if hasValueOperand scheme then ofStack Stack.pop else pure 0

/-- The operands of a call, except the value. -/
structure CallOperands where
  gas : Word
  callee : Address
  inOffset : Word
  inSize : Word
  outOffset : Word
  outSize : Word
  deriving DecidableEq

/-- Pays for a call whose operands are known, and takes the gas it forwards out of the frame. -/
def requestCall (host : Host) (scheme : CallScheme) (operands : CallOperands) (value : Word)
    (transfersValue : Bool) : Exec CallRequest := do
  let input ← chargeMemory host.rules.gas operands.inOffset operands.inSize
  let output ← chargeMemory host.rules.gas operands.outOffset operands.outSize
  spend (callSurcharge host.rules (← ledger) scheme transfersValue operands.callee)
  let available := (← frame).gas
  let forwarded ← ofFrame fun f =>
    (Gas.forwarded host.rules available operands.gas).map fun gas => (gas, f)
  spend forwarded
  let f ← frame
  let (caller, address, apparent) := callParties f.env operands.callee value scheme
  return {
    scheme
    gas := if transfersValue then Gas.satAdd forwarded host.rules.gas.callStipend else forwarded
    caller
    address
    codeAddress := operands.callee
    value := apparent
    transfersValue
    input := f.memory.read input.1 input.2
    outOffset := output.1
    outLength := output.2
    isStatic := f.env.isStatic || scheme = .staticCall }

def call (host : Host) (scheme : CallScheme) : Exec CallRequest := do
  let (gas, callee) ← ofStack Stack.pop2
  let value ← valueOperand scheme
  let (inOffset, inSize, outOffset, outSize) ← ofStack Stack.pop4
  let transfersValue := hasValueOperand scheme && value ≠ 0
  if scheme = .call ∧ transfersValue then requireMutable
  requestCall host scheme ⟨gas, callee.toAddress, inOffset, inSize, outOffset, outSize⟩ value
    transfersValue

end Instruction
end EvmEngine
