import EvmEngine.Frame
import EvmEngine.Ledger
import EvmEngine.OpcodeTable

/-!
What an instruction runs in: the rules and the block hashes, which it reads, and the frame and the
ledger, which it changes. An instruction that fails keeps the changes it made before: operands
already taken stay taken, and gas already spent stays spent.
-/

namespace EvmEngine

/-- What stays the same through a run. -/
structure Host where
  rules : Rules
  blockHash : UInt64 → Option Hash
  table : OpcodeTable
  table_eq : table = OpcodeTable.ofRules rules

namespace Host

def ofRules (rules : Rules) (blockHash : UInt64 → Option Hash) : Host :=
  ⟨rules, blockHash, OpcodeTable.ofRules rules, rfl⟩

end Host

/-- A request to run the code of an account. -/
structure CallRequest where
  scheme : CallScheme
  gas : UInt64
  caller : Address
  address : Address
  codeAddress : Address
  value : Word
  transfersValue : Bool
  input : ByteArray
  outOffset : Nat
  outLength : Nat
  isStatic : Bool
  deriving DecidableEq

/-- A request to create an account. With a salt its address does not depend on the nonce. -/
structure CreateRequest where
  gas : UInt64
  creator : Address
  value : Word
  initCode : ByteArray
  salt : Option Word
  deriving DecidableEq

namespace CreateRequest

def scheme (r : CreateRequest) : CreateScheme :=
  if r.salt.isSome then .bySalt else .byNonce

end CreateRequest

/-- How to go on after an instruction. -/
inductive Control
  | next
  | jumped
  | halted
  | call (request : CallRequest)
  | create (request : CreateRequest)
  deriving DecidableEq

/-- A frame and the ledger it acts on. -/
structure Focus where
  frame : Frame
  ledger : Ledger

abbrev Exec := EStateM EngineError Focus

namespace Exec

/-- Runs an operation of the frame that gives an answer. -/
def ofFrame {α : Type} (f : Frame → Except Fault (α × Frame)) : Exec α := fun s =>
  match f s.frame with
  | .ok (a, frame) => .ok a { s with frame }
  | .error cause => .error (.fault cause) s

/-- Runs an operation of the frame that only changes it. -/
def onFrame (f : Frame → Except Fault Frame) : Exec Unit := fun s =>
  match f s.frame with
  | .ok frame => .ok () { s with frame }
  | .error cause => .error (.fault cause) s

/-- Runs an operation of the stack that gives an answer. -/
def ofStack {α : Type} (f : Stack → Except Fault (α × Stack)) : Exec α := fun s =>
  match f s.frame.stack with
  | .ok (a, stack) => .ok a { s with frame := { s.frame with stack } }
  | .error cause => .error (.fault cause) s

/-- Runs an operation of the stack that only changes it. -/
def onStack (f : Stack → Except Fault Stack) : Exec Unit := fun s =>
  match f s.frame.stack with
  | .ok stack => .ok () { s with frame := { s.frame with stack } }
  | .error cause => .error (.fault cause) s

def onLedger (f : Ledger → Except StateError Ledger) : Exec Unit := fun s =>
  match f s.ledger with
  | .ok ledger => .ok () { s with ledger }
  | .error cause => .error (.state cause) s

def modifyFrame (f : Frame → Frame) : Exec Unit := fun s =>
  .ok () { s with frame := f s.frame }

def modifyLedger (f : Ledger → Ledger) : Exec Unit := fun s =>
  .ok () { s with ledger := f s.ledger }

def frame : Exec Frame := fun s => .ok s.frame s

def ledger : Exec Ledger := fun s => .ok s.ledger s

def fail {α : Type} (cause : Fault) : Exec α := fun s => .error (.fault cause) s

def pushWord (w : Word) : Exec Unit := onStack (·.push w)

def spend (amount : UInt64) : Exec Unit := onFrame (·.spend amount)

def requireMutable : Exec Unit := fun s =>
  match s.frame.requireMutable with
  | .ok () => .ok () s
  | .error cause => .error (.fault cause) s

def chargeMemory (gas : GasSchedule) (offset length : Word) : Exec (Nat × Nat) :=
  ofFrame (·.chargeMemory offset length gas)

/-- Reads a slot of the account the frame acts on. -/
def load (key : Word) : Exec Word := fun s =>
  .ok (s.ledger.load s.frame.env.address key) s

/-- Writes a slot of the account the frame acts on, unless no state may change. -/
def store (key value : Word) : Exec Unit := do
  requireMutable
  let f ← frame
  modifyLedger (·.store f.env.address key value)

end Exec
end EvmEngine
