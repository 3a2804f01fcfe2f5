/-!
The 256-bit words an instruction computes with, and the 160-bit addresses that name accounts.
Arithmetic wraps modulo 2^256; the signed operations read a word as two's complement, and a zero
divisor or modulus gives zero. Each operation is written as the instruction set describes it; its
reading as an operation on integers is a theorem about it.
-/

namespace EvmEngine

abbrev Word := BitVec 256

abbrev Address := BitVec 160

/-- A 32-byte digest, read as a big-endian number. -/
abbrev Hash := BitVec 256

namespace Word

/-- The number of binary digits, none for zero. -/
def bitLength (w : Word) : Nat :=
  if w = 0 then 0 else w.toNat.log2 + 1

/-- The number of significant bytes, none for zero. -/
def byteLength (w : Word) : Nat :=
  (w.bitLength + 7) / 8

/-- The value as a machine integer, where it has at most 64 bits. -/
def toUInt64? (w : Word) : Option UInt64 :=
  if w.toNat < UInt64.size then some (UInt64.ofNat w.toNat) else none

/-- The value as a machine integer, capped at the largest one. -/
def clamp (w : Word) : UInt64 :=
  w.toUInt64?.getD (UInt64.ofNat (UInt64.size - 1))

def ofUInt64 (n : UInt64) : Word :=
  BitVec.ofNat 256 n.toNat

def ofBool (b : Bool) : Word :=
  if b then 1 else 0

/-- The low 160 bits. -/
def toAddress (w : Word) : Address :=
  w.setWidth 160

def isNegative (w : Word) : Bool :=
  w.msb

/-- The absolute value; the least signed word, which has none, stays as it is. -/
def magnitude (w : Word) : Word :=
  if w.isNegative then -w else w

def div (a b : Word) : Word :=
  if b = 0 then 0 else a / b

def mod (a b : Word) : Word :=
  if b = 0 then 0 else a % b

/-- The quotient of the magnitudes, negated where the signs differ. -/
def signedDiv (a b : Word) : Word :=
  if b = 0 then 0
  else
    let quotient := a.magnitude / b.magnitude
    if a.isNegative != b.isNegative then -quotient else quotient

/-- The remainder of the magnitudes, with the sign of the dividend. -/
def signedMod (a b : Word) : Word :=
  if b = 0 then 0
  else
    let remainder := a.magnitude % b.magnitude
    if a.isNegative then -remainder else remainder

/-- The sum is taken before it is reduced, so it does not wrap at 2^256. -/
def addMod (a b m : Word) : Word :=
  if m = 0 then 0 else BitVec.ofNat 256 ((a.toNat + b.toNat) % m.toNat)

/-- The product is taken before it is reduced, so it does not wrap at 2^256. -/
def mulMod (a b m : Word) : Word :=
  if m = 0 then 0 else BitVec.ofNat 256 ((a.toNat * b.toNat) % m.toNat)

/-- What repeated squaring holds between two steps: the result so far, the present square of the
base and what is left of the exponent. -/
structure Squaring where
  result : Word
  square : Word
  exponent : Word

namespace Squaring

/-- Takes the lowest binary digit off the exponent. -/
def step (q : Squaring) : Squaring where
  result := if q.exponent.getLsbD 0 then q.result * q.square else q.result
  square := q.square * q.square
  exponent := q.exponent >>> 1

theorem exponent_step (q : Squaring) : q.step.exponent.toNat = q.exponent.toNat / 2 := by
  rw [step, BitVec.toNat_ushiftRight, Nat.shiftRight_eq_div_pow, Nat.pow_one]

/-- Steps until nothing is left of the exponent. -/
def run (q : Squaring) : Word :=
  if q.exponent = 0 then q.result else q.step.run
termination_by q.exponent.toNat
decreasing_by
  next nonzero =>
    have positive : q.exponent.toNat ≠ 0 := fun zero => nonzero (BitVec.eq_of_toNat_eq zero)
    rw [exponent_step]
    omega

end Squaring

def pow (base exponent : Word) : Word :=
  Squaring.run ⟨1, base, exponent⟩

/-- Copies the sign bit of byte k, counted from the low end, into every bit above it. -/
def signExtend (k w : Word) : Word :=
  if 31 ≤ k.toNat then w
  else
    let bit := 8 * k.toNat + 7
    let mask : Word := (1 <<< bit) - 1
    if w.getLsbD bit then w ||| ~~~mask else w &&& mask

/-- Byte i, counted from the most significant one. -/
def byte (i w : Word) : Word :=
  if 32 ≤ i.toNat then 0 else (w >>> (8 * (31 - i.toNat))) &&& 0xff

def shiftLeft (s w : Word) : Word :=
  if 256 ≤ s.toNat then 0 else w <<< s.toNat

def shiftRight (s w : Word) : Word :=
  if 256 ≤ s.toNat then 0 else w >>> s.toNat

/-- Shifts right and fills with the sign bit: a negative word is shifted as its complement. -/
def arithmeticShiftRight (s w : Word) : Word :=
  if !w.isNegative then shiftRight s w
  else if 256 ≤ s.toNat then BitVec.allOnes 256
  else ~~~(~~~w >>> s.toNat)

def signedLess (a b : Word) : Bool :=
  match a.isNegative, b.isNegative with
  | true, false => true
  | false, true => false
  | _, _ => decide (a < b)

end Word

namespace Address

def toWord (a : Address) : Word :=
  a.setWidth 256

/-- The address whose low 64 bits are the given number. -/
def ofUInt64 (n : UInt64) : Address :=
  BitVec.ofNat 160 n.toNat

/-- The last byte of an address that is otherwise zero. -/
def lowByte? (a : Address) : Option UInt8 :=
  if a.toNat < 256 then some (UInt8.ofNat a.toNat) else none

end Address

end EvmEngine
