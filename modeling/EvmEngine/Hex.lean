import EvmEngine.Bytes

/-!
Hexadecimal text. Numbers are written with no leading zeros or at a fixed width, byte strings with
two digits a byte; the digits are lower case and follow `0x`. Both letter cases are read.
-/

namespace EvmEngine
namespace Hex

def digits (n : Nat) : String :=
  String.ofList (Nat.toDigits 16 n)

/-- At least `width` digits, filled with zeros on the left. -/
def padded (width n : Nat) : String :=
  let text := Nat.toDigits 16 n
  String.ofList (List.replicate (width - text.length) '0' ++ text)

/-- A number without leading zeros. -/
def ofNat (n : Nat) : String :=
  "0x" ++ digits n

def ofAddress (a : Address) : String :=
  "0x" ++ padded 40 a.toNat

def ofHash (h : Hash) : String :=
  "0x" ++ padded 64 h.toNat

def digit (n : UInt8) : Char :=
  Nat.digitChar n.toNat

def ofBytes (b : ByteArray) : String :=
  b.data.foldl (fun text (x : UInt8) => (text.push (digit (x >>> 4))).push (digit (x &&& 15))) "0x"

/-- A byte string for display: a long one is cut after 8 bytes and its length given. -/
def abbreviated (b : ByteArray) : String :=
  if 8 < b.size then ofBytes (b.extract 0 8) ++ "..(" ++ toString b.size ++ " bytes)"
  else ofBytes b

/-- A byte as two upper-case digits. -/
def upperByte (n : UInt8) : String :=
  "0x" ++ (padded 2 n.toNat).toUpper

def digitValue? (c : Char) : Option Nat :=
  if '0' ≤ c && c ≤ '9' then some (c.toNat - '0'.toNat)
  else if 'a' ≤ c && c ≤ 'f' then some (c.toNat - 'a'.toNat + 10)
  else if 'A' ≤ c && c ≤ 'F' then some (c.toNat - 'A'.toNat + 10)
  else none

/-- The values of the digits after `0x`. -/
def digitValues? (text : String) : Option (List Nat) :=
  match text.toList with
  | '0' :: 'x' :: digits => digits.mapM digitValue?
  | _ => none

/-- Reads a number of any length; no digits at all are zero. -/
def toNat? (text : String) : Option Nat :=
  (digitValues? text).map (·.foldl (fun n d => 16 * n + d) 0)

/-- Takes one more digit: the high half of a byte, or the low half that completes it. -/
def takeDigit (state : ByteArray × Option Nat) (d : Nat) : ByteArray × Option Nat :=
  match state.2 with
  | none => (state.1, some d)
  | some high => (state.1.push (UInt8.ofNat (16 * high + d)), none)

/-- Reads a byte string. The first of an odd number of digits is a byte by itself. -/
def toBytes? (text : String) : Option ByteArray :=
  (digitValues? text).map fun ds =>
    (ds.foldl takeDigit (ByteArray.emptyWithCapacity (ds.length / 2 + 1),
      if ds.length % 2 = 0 then none else some 0)).1

end Hex
end EvmEngine
