import EvmEngine.Keccak
import EvmEngine.Modular

/-!
Recovery of the signer of a message on the curve y² = x³ + 7 over the field of `fieldPrime`
elements. A signature with its second number in the upper half of the group is first brought to the
lower half, which negates the point it stands for.
-/

namespace EvmEngine
namespace Secp256k1

def fieldPrime : Nat :=
  0xfffffffffffffffffffffffffffffffffffffffffffffffffffffffefffffc2f

/-- The number of points, a prime. -/
def groupOrder : Nat :=
  0xfffffffffffffffffffffffffffffffebaaedce6af48a03bbfd25e8cd0364141

/-- A point as x/z² and y/z³; every point with z zero is the neutral one. -/
structure Point where
  x : Nat
  y : Nat
  z : Nat

def neutral : Point := ⟨1, 1, 0⟩

def generator : Point :=
  ⟨0x79be667ef9dcbbac55a06295ce870b07029bfcdb2dce28d959f2815b16f81798,
    0x483ada7726a3c4655da4fbfc0e1108a8fd17b448a68554199c47d08ffb10d4b8, 1⟩

def mul (a b : Nat) : Nat := a * b % fieldPrime

def sub (a b : Nat) : Nat := Modular.sub a b fieldPrime

namespace Point

def double (p : Point) : Point :=
  if p.z = 0 ∨ p.y = 0 then neutral
  else
    let a := mul p.x p.x
    let b := mul p.y p.y
    let c := mul b b
    let d := mul 4 (mul p.x b)
    let e := mul 3 a
    let x := sub (mul e e) (mul 2 d)
    ⟨x, sub (mul e (sub d x)) (mul 8 c), mul 2 (mul p.y p.z)⟩

def add (p q : Point) : Point :=
  if p.z = 0 then q
  else if q.z = 0 then p
  else
    let zp := mul p.z p.z
    let zq := mul q.z q.z
    let u := mul p.x zq
    let v := mul q.x zp
    let s := mul p.y (mul zq q.z)
    let t := mul q.y (mul zp p.z)
    let h := sub v u
    let r := sub t s
    if h = 0 then (if r = 0 then p.double else neutral)
    else
      let hh := mul h h
      let hhh := mul hh h
      let w := mul u hh
      let x := sub (sub (mul r r) hhh) (mul 2 w)
      ⟨x, sub (mul r (sub w x)) (mul s hhh), mul h (mul p.z q.z)⟩

/-- The multiple by the lowest `digits` binary digits of a number, by doubling and adding. -/
def scale : Nat → Nat → Point → Point
  | 0, _, _ => neutral
  | digits + 1, k, p =>
      let rest := scale digits (k / 2) p.double
      if k % 2 = 1 then rest.add p else rest

/-- The two coordinates of a point other than the neutral one. -/
def affine? (p : Point) : Option (Nat × Nat) :=
  if p.z = 0 then none
  else
    let inv := Modular.inverse p.z fieldPrime
    let inv2 := mul inv inv
    some (mul p.x inv2, mul p.y (mul inv2 inv))

end Point

/-- The point with a given first coordinate whose second coordinate is odd or even as asked. -/
def lift? (x : Nat) (odd : Bool) : Option Point :=
  if fieldPrime ≤ x then none
  else
    let square := (mul (mul x x) x + 7) % fieldPrime
    let y := Modular.pow square ((fieldPrime + 1) / 4) fieldPrime
    if mul y y ≠ square then none
    else some ⟨x, if (y % 2 == 1) == odd then y else (fieldPrime - y) % fieldPrime, 1⟩

/-- A signature: two numbers below the group order and not zero, and the parity of the point the
first of them stands for. -/
structure Signature where
  r : Nat
  s : Nat
  odd : Bool
  deriving DecidableEq

namespace Signature

def ofNumbers? (r s : Nat) (odd : Bool) : Option Signature :=
  if 0 < r ∧ r < groupOrder ∧ 0 < s ∧ s < groupOrder then some ⟨r, s, odd⟩ else none

/-- The one of a signature and its negative whose second number is in the lower half. -/
def normalize (sig : Signature) : Signature :=
  if groupOrder / 2 < sig.s then ⟨sig.r, groupOrder - sig.s, !sig.odd⟩ else sig

/-- The public key under which a normalized signature of a digest verifies. -/
def publicKey? (sig : Signature) (digest : Nat) : Option (Nat × Nat) :=
  match lift? sig.r sig.odd with
  | none => none
  | some point =>
      let inv := Modular.inverse sig.r groupOrder
      let u := (groupOrder - digest % groupOrder) % groupOrder * inv % groupOrder
      let v := sig.s * inv % groupOrder
      ((generator.scale 256 u).add (point.scale 256 v)).affine?

end Signature

/-- The recovery number with the offset of 27 taken off that it may carry. -/
def normalizedV (v : UInt8) : UInt8 :=
  if 27 ≤ v then v - 27 else v

/-- The address of the signer: the end of the digest of the two coordinates of the public key. -/
def recover? (digest : Hash) (r s : Word) (v : UInt8) : Option Address := do
  let parity ←
    match normalizedV v with
    | 0 => some false
    | 1 => some true
    | _ => none
  let sig ← Signature.ofNumbers? r.toNat s.toNat parity
  let (x, y) ← sig.normalize.publicKey? digest.toNat
  return Word.toAddress (keccak256 (Bytes.ofNat 32 x ++ Bytes.ofNat 32 y))

end Secp256k1
end EvmEngine
