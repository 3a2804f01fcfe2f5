import EvmEngine.Schedule

/-!
Everything the interpreter has to know about the active protocol version: the prices, the limits,
and the behaviour that changed from one upgrade to another.
-/

namespace EvmEngine

/-- How a storage write is priced: by the current value alone, or against the value at the start
of the transaction, the latter also with a least amount of gas that must remain. -/
inductive SstoreMetering
  | legacy
  | net
  | netWithSentry
  deriving DecidableEq

namespace SstoreMetering

def all : List SstoreMetering := [legacy, net, netWithSentry]

def name : SstoreMetering → String
  | legacy => "Legacy"
  | net => "Net"
  | netWithSentry => "NetWithSentry"

def ofName? (text : String) : Option SstoreMetering :=
  all.find? (·.name == text)

end SstoreMetering

structure Rules where
  /-- Decides which instructions exist. -/
  fork : Fork
  gas : GasSchedule
  maxCallDepth : UInt64
  /-- A call is given at most all but one part in `gas.callGasDivisor` of what is left. -/
  limitCallGas : Bool
  maxCodeSize : Option UInt64
  /-- The nonce a new contract starts with. -/
  createNonce : UInt64
  /-- Surcharges treat an empty account as absent. -/
  emptyAccountSemantics : Bool
  /-- A creation that cannot pay for its code fails, rather than leave an account without code. -/
  failCreateOnDepositOog : Bool
  sstoreMetering : SstoreMetering
  precompileCount : UInt8
  deriving DecidableEq

namespace Rules

/-- The rules of an upgrade. -/
def ofFork (fork : Fork) : Rules where
  fork
  gas := GasSchedule.ofFork fork
  maxCallDepth := 1024
  limitCallGas := Fork.tangerineWhistle ≤ fork
  maxCodeSize := if Fork.spuriousDragon ≤ fork then some 24576 else none
  createNonce := if Fork.spuriousDragon ≤ fork then 1 else 0
  emptyAccountSemantics := Fork.spuriousDragon ≤ fork
  failCreateOnDepositOog := Fork.homestead ≤ fork
  sstoreMetering :=
    match fork with
    | .constantinople => .net
    | .istanbul => .netWithSentry
    | _ => .legacy
  precompileCount := if Fork.byzantium ≤ fork then 5 else 4

def isActive (rules : Rules) (fork : Fork) : Bool :=
  fork ≤ rules.fork

end Rules
end EvmEngine
