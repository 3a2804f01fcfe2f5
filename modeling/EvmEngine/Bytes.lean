import EvmEngine.Word

/-!
Byte strings: big-endian numbers in them, and windows that read zero past the end.
-/

namespace EvmEngine
namespace Bytes

instance decidableEq : DecidableEq ByteArray := ByteArray.instDecidableEq

/-- The big-endian number a byte string spells. -/
def toNat (b : ByteArray) : Nat :=
  b.data.foldl (fun n x => n * 256 + x.toNat) 0

/-- The low `width` bytes of a number, most significant byte first. -/
def ofNat (width n : Nat) : ByteArray :=
  ⟨Array.ofFn fun i : Fin width => UInt8.ofNat (n >>> (8 * (width - 1 - i.val)))⟩

def zeros (n : Nat) : ByteArray :=
  ⟨Array.replicate n 0⟩

/-- The `length` bytes from `offset` on; past the end of the string they are zero. -/
def window (b : ByteArray) (offset length : Nat) : ByteArray :=
  if b.size ≤ offset then zeros length
  else
    let available := min (b.size - offset) length
    b.extract offset (offset + available) ++ zeros (length - available)

end Bytes

namespace Word

/-- The last 32 bytes of a string, or all of a shorter one, as a big-endian number. -/
def ofBytes (b : ByteArray) : Word :=
  BitVec.ofNat 256 (Bytes.toNat b)

/-- The 32 bytes of a word, most significant byte first. -/
def toBytes (w : Word) : ByteArray :=
  Bytes.ofNat 32 w.toNat

end Word

namespace Address

/-- The 20 bytes of an address, most significant byte first. -/
def toBytes (a : Address) : ByteArray :=
  Bytes.ofNat 20 a.toNat

/-- Reads a string of exactly 20 bytes. -/
def ofBytes? (b : ByteArray) : Option Address :=
  if b.size = 20 then some (BitVec.ofNat 160 (Bytes.toNat b)) else none

end Address

end EvmEngine
