import EvmEngine.Bytes

/-!
The SHA-256 digest: blocks of 64 bytes are stretched to 64 words each and worked into eight words
of state.
-/

namespace EvmEngine
namespace Sha256

structure State where
  a : UInt32
  b : UInt32
  c : UInt32
  d : UInt32
  e : UInt32
  f : UInt32
  g : UInt32
  h : UInt32

def initial : State :=
  ⟨0x6a09e667, 0xbb67ae85, 0x3c6ef372, 0xa54ff53a,
    0x510e527f, 0x9b05688c, 0x1f83d9ab, 0x5be0cd19⟩

def constants : Array UInt32 :=
  #[0x428a2f98, 0x71374491, 0xb5c0fbcf, 0xe9b5dba5, 0x3956c25b, 0x59f111f1, 0x923f82a4, 0xab1c5ed5,
    0xd807aa98, 0x12835b01, 0x243185be, 0x550c7dc3, 0x72be5d74, 0x80deb1fe, 0x9bdc06a7, 0xc19bf174,
    0xe49b69c1, 0xefbe4786, 0x0fc19dc6, 0x240ca1cc, 0x2de92c6f, 0x4a7484aa, 0x5cb0a9dc, 0x76f988da,
    0x983e5152, 0xa831c66d, 0xb00327c8, 0xbf597fc7, 0xc6e00bf3, 0xd5a79147, 0x06ca6351, 0x14292967,
    0x27b70a85, 0x2e1b2138, 0x4d2c6dfc, 0x53380d13, 0x650a7354, 0x766a0abb, 0x81c2c92e, 0x92722c85,
    0xa2bfe8a1, 0xa81a664b, 0xc24b8b70, 0xc76c51a3, 0xd192e819, 0xd6990624, 0xf40e3585, 0x106aa070,
    0x19a4c116, 0x1e376c08, 0x2748774c, 0x34b0bcb5, 0x391c0cb3, 0x4ed8aa4a, 0x5b9cca4f, 0x682e6ff3,
    0x748f82ee, 0x78a5636f, 0x84c87814, 0x8cc70208, 0x90befffa, 0xa4506ceb, 0xbef9a3f7, 0xc67178f2]

def rotateRight (x n : UInt32) : UInt32 :=
  (x >>> n) ||| (x <<< (32 - n))

/-- Four bytes from `offset` on, most significant first. -/
def bigEndian (b : ByteArray) (offset : Nat) : UInt32 :=
  Nat.fold 4 (fun i _ acc => (acc <<< 8) ||| (b[offset + i]?.getD 0).toUInt32) 0

/-- The words of a block, the first sixteen as they stand and each later one from four before. -/
def schedule (padded : ByteArray) (block : Nat) : Array UInt32 :=
  let words := Array.ofFn fun i : Fin 16 => bigEndian padded (block * 64 + 4 * i.val)
  Nat.fold 48 (fun i _ (w : Array UInt32) =>
    let back := fun k => w[i + 16 - k]?.getD 0
    let x := back 15
    let y := back 2
    let s0 := rotateRight x 7 ^^^ rotateRight x 18 ^^^ (x >>> 3)
    let s1 := rotateRight y 17 ^^^ rotateRight y 19 ^^^ (y >>> 10)
    w.push (back 16 + s0 + back 7 + s1)) words

def round (s : State) (constant word : UInt32) : State :=
  let s1 := rotateRight s.e 6 ^^^ rotateRight s.e 11 ^^^ rotateRight s.e 25
  let choice := (s.e &&& s.f) ^^^ (~~~ s.e &&& s.g)
  let t1 := s.h + s1 + choice + constant + word
  let s0 := rotateRight s.a 2 ^^^ rotateRight s.a 13 ^^^ rotateRight s.a 22
  let majority := (s.a &&& s.b) ^^^ (s.a &&& s.c) ^^^ (s.b &&& s.c)
  ⟨t1 + (s0 + majority), s.a, s.b, s.c, s.d + t1, s.e, s.f, s.g⟩

def compress (s : State) (padded : ByteArray) (block : Nat) : State :=
  let words := schedule padded block
  let t := Nat.fold 64 (fun i _ t => round t (constants[i]?.getD 0) (words[i]?.getD 0)) s
  ⟨s.a + t.a, s.b + t.b, s.c + t.c, s.d + t.d, s.e + t.e, s.f + t.f, s.g + t.g, s.h + t.h⟩

/-- Fills the message up to a multiple of 64 bytes: a one bit, zeros, and the length in bits. -/
def pad (message : ByteArray) : ByteArray :=
  let fill := (119 - message.size % 64) % 64
  (message.push 0x80) ++ Bytes.zeros fill ++ Bytes.ofNat 8 (8 * message.size)

end Sha256

/-- The SHA-256 digest of a message. -/
def sha256 (message : ByteArray) : Hash :=
  let padded := Sha256.pad message
  let s := Nat.fold (padded.size / 64) (fun block _ s => Sha256.compress s padded block)
    Sha256.initial
  [s.a, s.b, s.c, s.d, s.e, s.f, s.g, s.h].foldl
    (fun acc x => (acc <<< 32) ||| BitVec.ofNat 256 x.toNat) 0

end EvmEngine
