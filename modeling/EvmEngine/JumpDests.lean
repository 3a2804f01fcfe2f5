import EvmEngine.Opcode

/-!
The places of a code to which a jump may go: the jump markers that are instructions rather than
operands of a push.
-/

namespace EvmEngine

/-- One mark for each byte of a code, 1 where a jump may go. -/
structure JumpDests where
  marks : ByteArray
  deriving DecidableEq

namespace JumpDests

/-- Marks the next byte. The second component counts the bytes that still belong to the operand of
the last push. -/
def mark (state : ByteArray × Nat) (byte : UInt8) : ByteArray × Nat :=
  match state.2 with
  | operand + 1 => (state.1.push 0, operand)
  | 0 => (state.1.push (if byte = 0x5b then 1 else 0), (pushSize? byte).getD 0)

/-- Sweeps a code once from its start. -/
def ofCode (code : ByteArray) : JumpDests :=
  ⟨(code.data.foldl mark (ByteArray.emptyWithCapacity code.size, 0)).1⟩

def contains (dests : JumpDests) (pc : Nat) : Bool :=
  match dests.marks[pc]? with
  | some m => m == 1
  | none => false

/-- The marked positions in ascending order. -/
def positions (dests : JumpDests) : List Nat :=
  (List.range dests.marks.size).filter dests.contains

end JumpDests
end EvmEngine
