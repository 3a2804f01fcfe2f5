import EvmEngine.Bytes

/-!
The Keccak-256 digest: the sponge over the permutation of 25 lanes of 64 bits, with a rate of 136
bytes and the padding that starts with a one bit and ends with another.
-/

namespace EvmEngine
namespace Keccak

/-- The lanes of one row, or one number for each column. -/
structure Row where
  a : UInt64
  b : UInt64
  c : UInt64
  d : UInt64
  e : UInt64
  deriving DecidableEq

structure State where
  a : Row
  b : Row
  c : Row
  d : Row
  e : Row
  deriving DecidableEq

def roundConstants : List UInt64 :=
  [0x0000000000000001, 0x0000000000008082, 0x800000000000808a, 0x8000000080008000,
    0x000000000000808b, 0x0000000080000001, 0x8000000080008081, 0x8000000000008009,
    0x000000000000008a, 0x0000000000000088, 0x0000000080008009, 0x000000008000000a,
    0x000000008000808b, 0x800000000000008b, 0x8000000000008089, 0x8000000000008003,
    0x8000000000008002, 0x8000000000000080, 0x000000000000800a, 0x800000008000000a,
    0x8000000080008081, 0x8000000000008080, 0x0000000080000001, 0x8000000080008008]

/-- Rotates a lane, by at least one place and at most 63. -/
@[inline] def rotateLeft (x n : UInt64) : UInt64 :=
  (x <<< n) ||| (x >>> (64 - n))

namespace Row

@[inline] def zero : Row := ⟨0, 0, 0, 0, 0⟩

@[inline] def xor (r s : Row) : Row :=
  ⟨r.a ^^^ s.a, r.b ^^^ s.b, r.c ^^^ s.c, r.d ^^^ s.d, r.e ^^^ s.e⟩

/-- What is added to each column: the parity of the one before and that of the one after, rotated. -/
@[inline] def spread (parity : Row) : Row :=
  ⟨parity.e ^^^ rotateLeft parity.b 1, parity.a ^^^ rotateLeft parity.c 1,
    parity.b ^^^ rotateLeft parity.d 1, parity.c ^^^ rotateLeft parity.e 1,
    parity.d ^^^ rotateLeft parity.a 1⟩

/-- The one step that is not linear. -/
@[inline] def chi (r : Row) : Row :=
  ⟨r.a ^^^ (~~~r.b &&& r.c), r.b ^^^ (~~~r.c &&& r.d), r.c ^^^ (~~~r.d &&& r.e),
    r.d ^^^ (~~~r.e &&& r.a), r.e ^^^ (~~~r.a &&& r.b)⟩

end Row

namespace State

def zero : State := ⟨Row.zero, Row.zero, Row.zero, Row.zero, Row.zero⟩

@[inline] def addToRows (s : State) (r : Row) : State :=
  ⟨s.a.xor r, s.b.xor r, s.c.xor r, s.d.xor r, s.e.xor r⟩

/-- Adds to each lane the parities of two neighbouring columns. -/
@[inline] def theta (s : State) : State :=
  s.addToRows ((((s.a.xor s.b).xor s.c).xor s.d).xor s.e).spread

/-- Rotates each lane by a distance of its own. -/
@[inline] def rho (s : State) : State where
  a := ⟨s.a.a, rotateLeft s.a.b 1, rotateLeft s.a.c 62, rotateLeft s.a.d 28, rotateLeft s.a.e 27⟩
  b := ⟨rotateLeft s.b.a 36, rotateLeft s.b.b 44, rotateLeft s.b.c 6, rotateLeft s.b.d 55,
    rotateLeft s.b.e 20⟩
  c := ⟨rotateLeft s.c.a 3, rotateLeft s.c.b 10, rotateLeft s.c.c 43, rotateLeft s.c.d 25,
    rotateLeft s.c.e 39⟩
  d := ⟨rotateLeft s.d.a 41, rotateLeft s.d.b 45, rotateLeft s.d.c 15, rotateLeft s.d.d 21,
    rotateLeft s.d.e 8⟩
  e := ⟨rotateLeft s.e.a 18, rotateLeft s.e.b 2, rotateLeft s.e.c 61, rotateLeft s.e.d 56,
    rotateLeft s.e.e 14⟩

/-- Moves each lane to its place in the next round. -/
@[inline] def pi (s : State) : State where
  a := ⟨s.a.a, s.b.b, s.c.c, s.d.d, s.e.e⟩
  b := ⟨s.a.d, s.b.e, s.c.a, s.d.b, s.e.c⟩
  c := ⟨s.a.b, s.b.c, s.c.d, s.d.e, s.e.a⟩
  d := ⟨s.a.e, s.b.a, s.c.b, s.d.c, s.e.d⟩
  e := ⟨s.a.c, s.b.d, s.c.e, s.d.a, s.e.b⟩

@[inline] def chi (s : State) : State :=
  ⟨s.a.chi, s.b.chi, s.c.chi, s.d.chi, s.e.chi⟩

/-- Adds the constant of a round to the first lane. -/
@[inline] def iota (s : State) (constant : UInt64) : State :=
  { s with a := { s.a with a := s.a.a ^^^ constant } }

def round (s : State) (constant : UInt64) : State :=
  s.theta.rho.pi.chi.iota constant

def permute (s : State) : State :=
  roundConstants.foldl round s

end State

/-- Eight bytes from `offset` on, least significant first. -/
def littleEndian (b : ByteArray) (offset : Nat) : UInt64 :=
  Nat.fold 8 (fun i _ acc => acc ||| ((b[offset + i]?.getD 0).toUInt64 <<< UInt64.ofNat (8 * i))) 0

def rate : Nat := 136

/-- Fills the message up to a multiple of the rate. -/
def pad (message : ByteArray) : ByteArray :=
  let fill := rate - message.size % rate
  if fill = 1 then message.push 0x81
  else ((message.push 0x01) ++ Bytes.zeros (fill - 2)).push 0x80

/-- Adds one block of the padded message to the state. The last eight lanes take no part of it. -/
def absorb (s : State) (padded : ByteArray) (block : Nat) : State :=
  let lane := fun i => littleEndian padded (block * rate + 8 * i)
  State.permute
    { a := s.a.xor ⟨lane 0, lane 1, lane 2, lane 3, lane 4⟩
      b := s.b.xor ⟨lane 5, lane 6, lane 7, lane 8, lane 9⟩
      c := s.c.xor ⟨lane 10, lane 11, lane 12, lane 13, lane 14⟩
      d := s.d.xor ⟨lane 15, lane 16, 0, 0, 0⟩
      e := s.e }

def sponge (message : ByteArray) : State :=
  let padded := pad message
  Nat.fold (padded.size / rate) (fun block _ s => absorb s padded block) State.zero

/-- The eight bytes of a lane, least significant first. -/
def laneBytes (x : UInt64) : ByteArray :=
  ⟨Array.ofFn fun i : Fin 8 => (x >>> UInt64.ofNat (8 * i.val)).toUInt8⟩

/-- The first four lanes. -/
def digestBytes (s : State) : ByteArray :=
  laneBytes s.a.a ++ laneBytes s.a.b ++ laneBytes s.a.c ++ laneBytes s.a.d

end Keccak

/-- The Keccak-256 digest of a message. -/
def keccak256 (message : ByteArray) : Hash :=
  Word.ofBytes (Keccak.digestBytes (Keccak.sponge message))

/-- The digest of the empty message, which is the code hash of an account without code. -/
def emptyCodeHash : Hash :=
  keccak256 ByteArray.empty

end EvmEngine
