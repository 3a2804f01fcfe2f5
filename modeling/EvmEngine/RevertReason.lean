import EvmEngine.Bytes
import EvmEngine.Message

/-!
The text a failed call may give as its reason: a selector of four bytes, one word that is not read,
the length of the text as a word, and the text in UTF-8, after which anything may follow. A reason
is read with integers of any size, or with machine integers, where a read that leaves the data is an
error.
-/

namespace EvmEngine
namespace RevertReason

def selector : ByteArray := ⟨#[0x08, 0xc3, 0x79, 0xa0]⟩

/-- Reads a reason; none where the length does not fit or the text is not UTF-8. -/
def decode? (data : ByteArray) : Option String :=
  if data.size < 68 ∨ data.extract 0 4 ≠ selector then none
  else
    let length := Bytes.toNat (data.extract 36 68)
    if data.size < 68 + length then none
    else String.fromUTF8? (data.extract 68 (68 + length))

/-- A read that would leave the data. -/
structure OutOfBounds where
  first : Nat
  last : Nat
  size : Nat

/-- The bytes of a span, all of which have to be there. -/
def slice (data : ByteArray) (first last : Nat) : Except OutOfBounds ByteArray :=
  if first ≤ last ∧ last ≤ data.size then .ok (data.extract first last)
  else .error ⟨first, last, data.size⟩

/-- Where a text of a length ends, in machine integers: of the length only the low 64 bits are used,
and the sum starts again at zero after the largest machine integer. -/
def stopOf (length : Nat) : UInt64 :=
  68 + UInt64.ofNat length

/-- Reads a text of a length, which is compared as a whole before it is cut down. -/
def textNarrow (data : ByteArray) (length : Nat) : Except OutOfBounds (Option String) := do
  if data.size < length then return none
  let stop := stopOf length
  if stop < 68 ∨ data.size < stop.toNat then return none
  return String.fromUTF8? (← slice data 68 stop.toNat)

/-- Reads a reason with machine integers, where every read has to stay inside the data. -/
def decodeNarrow (data : ByteArray) : Except OutOfBounds (Option String) := do
  if data.size < 68 then return none
  if (← slice data 0 4) ≠ selector then return none
  textNarrow data (Word.ofBytes (← slice data 36 68)).toNat

end RevertReason

namespace CallResult

/-- The reason a call gives for its failure. -/
def revertReason? (r : CallResult) : Option String :=
  if r.success then none else RevertReason.decode? r.returnData

/-- The reason a call gives for its failure, read with machine integers. -/
def revertReasonNarrow (r : CallResult) : Except RevertReason.OutOfBounds (Option String) :=
  if r.success then .ok none else RevertReason.decodeNarrow r.returnData

end CallResult
end EvmEngine
