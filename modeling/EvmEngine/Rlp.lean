import EvmEngine.Bytes

/-!
The encoding of short byte strings, numbers and lists of them in which a first byte tells what
follows. Only forms with a payload of at most 55 bytes are written.
-/

namespace EvmEngine
namespace Rlp

/-- The bytes of a number without leading zeros; zero has none. -/
def significantBytes (n : Nat) : ByteArray :=
  Bytes.ofNat (if n = 0 then 0 else n.log2 / 8 + 1) n

/-- A byte string. A single byte below 0x80 is its own encoding. -/
def encodeString (b : ByteArray) : ByteArray :=
  if b.size = 1 ∧ b[0]?.any (· < 0x80) then b
  else ⟨#[0x80 + UInt8.ofNat b.size]⟩ ++ b

def encodeNat (n : Nat) : ByteArray :=
  encodeString (significantBytes n)

/-- A list of items that are already encoded. -/
def encodeList (items : List ByteArray) : ByteArray :=
  let payload := items.foldl (· ++ ·) ByteArray.empty
  ⟨#[0xc0 + UInt8.ofNat payload.size]⟩ ++ payload

end Rlp
end EvmEngine
