import EvmEngine.Bytes

/-!
The RIPEMD-160 digest: two lines of five rounds of sixteen steps run over each block of 64 bytes
and are added crosswise to the state.
-/

namespace EvmEngine
namespace Ripemd160

structure State where
  a : UInt32
  b : UInt32
  c : UInt32
  d : UInt32
  e : UInt32

def initial : State :=
  ⟨0x67452301, 0xefcdab89, 0x98badcfe, 0x10325476, 0xc3d2e1f0⟩

def rotateLeft (x n : UInt32) : UInt32 :=
  (x <<< n) ||| (x >>> (32 - n))

/-- The function that mixes three words in a round. -/
def mix (round : Nat) (x y z : UInt32) : UInt32 :=
  match round with
  | 0 => x ^^^ y ^^^ z
  | 1 => (x &&& y) ||| (~~~ x &&& z)
  | 2 => (x ||| ~~~ y) ^^^ z
  | 3 => (x &&& z) ||| (y &&& ~~~ z)
  | _ => x ^^^ (y ||| ~~~ z)

def leftConstants : Array UInt32 :=
  #[0x00000000, 0x5a827999, 0x6ed9eba1, 0x8f1bbcdc, 0xa953fd4e]

def rightConstants : Array UInt32 :=
  #[0x50a28be6, 0x5c4dd124, 0x6d703ef3, 0x7a6d76e9, 0x00000000]

/-- Which word of the block each step of the left line takes. -/
def leftWords : Array Nat :=
  #[0, 1, 2, 3, 4, 5, 6, 7, 8, 9, 10, 11, 12, 13, 14, 15,
    7, 4, 13, 1, 10, 6, 15, 3, 12, 0, 9, 5, 2, 14, 11, 8,
    3, 10, 14, 4, 9, 15, 8, 1, 2, 7, 0, 6, 13, 11, 5, 12,
    1, 9, 11, 10, 0, 8, 12, 4, 13, 3, 7, 15, 14, 5, 6, 2,
    4, 0, 5, 9, 7, 12, 2, 10, 14, 1, 3, 8, 11, 6, 15, 13]

def rightWords : Array Nat :=
  #[5, 14, 7, 0, 9, 2, 11, 4, 13, 6, 15, 8, 1, 10, 3, 12,
    6, 11, 3, 7, 0, 13, 5, 10, 14, 15, 8, 12, 4, 9, 1, 2,
    15, 5, 1, 3, 7, 14, 6, 9, 11, 8, 12, 2, 10, 0, 4, 13,
    8, 6, 4, 1, 3, 11, 15, 0, 5, 12, 2, 13, 9, 7, 10, 14,
    12, 15, 10, 4, 1, 5, 8, 7, 6, 2, 13, 14, 0, 3, 9, 11]

/-- How far each step of the left line rotates. -/
def leftShifts : Array UInt32 :=
  #[11, 14, 15, 12, 5, 8, 7, 9, 11, 13, 14, 15, 6, 7, 9, 8,
    7, 6, 8, 13, 11, 9, 7, 15, 7, 12, 15, 9, 11, 7, 13, 12,
    11, 13, 6, 7, 14, 9, 13, 15, 14, 8, 13, 6, 5, 12, 7, 5,
    11, 12, 14, 15, 14, 15, 9, 8, 9, 14, 5, 6, 8, 6, 5, 12,
    9, 15, 5, 11, 6, 8, 13, 12, 5, 12, 13, 14, 11, 8, 5, 6]

def rightShifts : Array UInt32 :=
  #[8, 9, 9, 11, 13, 15, 15, 5, 7, 7, 8, 11, 14, 14, 12, 6,
    9, 13, 15, 7, 12, 8, 9, 11, 7, 7, 12, 7, 6, 15, 13, 11,
    9, 7, 15, 11, 8, 6, 6, 14, 12, 13, 5, 14, 13, 13, 7, 5,
    15, 5, 8, 11, 14, 14, 6, 14, 6, 9, 12, 9, 12, 5, 15, 8,
    8, 5, 12, 9, 12, 5, 14, 6, 8, 13, 6, 5, 15, 13, 11, 11]

/-- Four bytes from `offset` on, least significant first. -/
def littleEndian (b : ByteArray) (offset : Nat) : UInt32 :=
  Nat.fold 4 (fun i _ acc => acc ||| ((b[offset + i]?.getD 0).toUInt32 <<< UInt32.ofNat (8 * i))) 0

def step (s : State) (function : Nat) (word constant shift : UInt32) : State :=
  let t := rotateLeft (s.a + mix function s.b s.c s.d + word + constant) shift + s.e
  ⟨s.e, t, s.b, rotateLeft s.c 10, s.d⟩

def compress (s : State) (padded : ByteArray) (block : Nat) : State :=
  let words := Array.ofFn fun i : Fin 16 => littleEndian padded (block * 64 + 4 * i.val)
  let line := fun (order : Array Nat) (shifts constants : Array UInt32) (function : Nat → Nat) =>
    Nat.fold 80 (fun i _ t =>
      step t (function (i / 16)) (words[order[i]?.getD 0]?.getD 0) (constants[i / 16]?.getD 0)
        (shifts[i]?.getD 0)) s
  let left := line leftWords leftShifts leftConstants id
  let right := line rightWords rightShifts rightConstants (4 - ·)
  ⟨s.b + left.c + right.d, s.c + left.d + right.e, s.d + left.e + right.a,
    s.e + left.a + right.b, s.a + left.b + right.c⟩

/-- Fills the message up to a multiple of 64 bytes: a one bit, zeros, and the length in bits, least
significant byte first. -/
def pad (message : ByteArray) : ByteArray :=
  let fill := (119 - message.size % 64) % 64
  let length := Bytes.ofNat 8 (8 * message.size)
  (message.push 0x80) ++ Bytes.zeros fill ++ ⟨length.data.reverse⟩

def wordBytes (x : UInt32) : List UInt8 :=
  [x.toUInt8, (x >>> 8).toUInt8, (x >>> 16).toUInt8, (x >>> 24).toUInt8]

end Ripemd160

/-- The 20 bytes of the RIPEMD-160 digest of a message. -/
def ripemd160 (message : ByteArray) : ByteArray :=
  let padded := Ripemd160.pad message
  let s := Nat.fold (padded.size / 64) (fun block _ s => Ripemd160.compress s padded block)
    Ripemd160.initial
  ⟨([s.a, s.b, s.c, s.d, s.e].flatMap Ripemd160.wordBytes).toArray⟩

end EvmEngine
