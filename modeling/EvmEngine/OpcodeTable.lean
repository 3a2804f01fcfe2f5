import EvmEngine.Opcode
import EvmEngine.Rules

/-!
The instructions a set of rules makes executable, with their stack arity and base price, in a table
with one place for each byte.
-/

namespace EvmEngine

structure OpcodeEntry where
  opcode : Opcode
  inputs : Nat
  outputs : Nat
  baseGas : UInt64
  deriving DecidableEq

structure OpcodeTable where
  entries : Array (Option OpcodeEntry)

namespace Rules

/-- The entry of a byte that is executable under the rules. -/
def opcodeEntry? (rules : Rules) (byte : UInt8) : Option OpcodeEntry :=
  match Opcode.ofByte? byte with
  | none => none
  | some op =>
      if rules.isActive op.introduced then some ⟨op, op.inputs, op.outputs, op.baseGas rules.gas⟩
      else none

end Rules

namespace OpcodeTable

def ofRules (rules : Rules) : OpcodeTable :=
  ⟨Array.ofFn fun i : Fin 256 => rules.opcodeEntry? (UInt8.ofNat i.val)⟩

def get? (table : OpcodeTable) (byte : UInt8) : Option OpcodeEntry :=
  (table.entries[byte.toNat]?).join

/-- The number of executable bytes. -/
def size (table : OpcodeTable) : Nat :=
  table.entries.countP Option.isSome

end OpcodeTable
end EvmEngine
