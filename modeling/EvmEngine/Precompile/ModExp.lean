import EvmEngine.Modular
import EvmEngine.Bytes

/-!
Modular exponentiation of numbers of any length. The input names three lengths, one word each, and
then holds base, exponent and modulus; what is missing at its end counts as zero.
-/

namespace EvmEngine
namespace ModExp

/-- The price of one multiplication of numbers of the given length; none for a length past 32 bits,
whose price nothing can pay. -/
def multiplicationComplexity? (length : Nat) : Option Nat :=
  if UInt32.size - 1 < length then none
  else if length ≤ 64 then some (length * length)
  else if length ≤ 1024 then some (length * length / 4 + 96 * length - 3072)
  else some (length * length / 16 + 480 * length - 199680)

/-- The number of multiplications: the place of the highest digit of the exponent, counted from its
first 32 bytes, and at least one. -/
def iterationCount (exponentLength : Nat) (head : Word) : Nat :=
  let count :=
    if exponentLength ≤ 32 then head.bitLength - 1
    else
      let extra := min (exponentLength - 32) (UInt64.size - 1)
      min (min (8 * extra) (UInt64.size - 1) + (max head.bitLength 1 - 1)) (UInt64.size - 1)
  max count 1

/-- The price of the whole computation, capped at the largest machine integer. -/
def gasCost (baseLength exponentLength modulusLength head : Word) : UInt64 :=
  match multiplicationComplexity? (max baseLength.toNat modulusLength.toNat) with
  | none => UInt64.ofNat (UInt64.size - 1)
  | some complexity =>
      UInt64.ofNat (min (complexity * iterationCount exponentLength.toNat head / 20) (UInt64.size - 1))

structure Lengths where
  base : Word
  exponent : Word
  modulus : Word
  deriving DecidableEq

def lengths (input : ByteArray) : Lengths where
  base := Word.ofBytes (Bytes.window input 0 32)
  exponent := Word.ofBytes (Bytes.window input 32 32)
  modulus := Word.ofBytes (Bytes.window input 64 32)

/-- What follows the three lengths. -/
def body (input : ByteArray) : ByteArray :=
  input.extract 96 input.size

/-- The first bytes of the exponent, at most 32 of them. -/
def exponentHead (body : ByteArray) (lengths : Lengths) : Word :=
  if UInt64.size ≤ lengths.base.toNat then 0
  else Word.ofBytes (Bytes.window body lengths.base.toNat (min lengths.exponent.toNat 32))

def price (input : ByteArray) : UInt64 :=
  let sizes := lengths input
  gasCost sizes.base sizes.exponent sizes.modulus (exponentHead (body input) sizes)

/-- The power at the width of the modulus, zero where the modulus is; none where a length is past 64
bits. -/
def output? (input : ByteArray) : Option ByteArray :=
  let sizes := lengths input
  if sizes.base = 0 ∧ sizes.modulus = 0 then some ByteArray.empty
  else
    let baseLength := sizes.base.toNat
    let exponentLength := sizes.exponent.toNat
    let modulusLength := sizes.modulus.toNat
    if UInt64.size ≤ baseLength ∨ UInt64.size ≤ exponentLength ∨ UInt64.size ≤ modulusLength then none
    else
      let body := body input
      let base := Bytes.toNat (Bytes.window body 0 baseLength)
      let exponent := Bytes.toNat (Bytes.window body baseLength exponentLength)
      let modulus := Bytes.toNat (Bytes.window body (baseLength + exponentLength) modulusLength)
      some (Bytes.ofNat modulusLength
        (if modulus = 0 then 0 else Modular.pow base exponent modulus))

end ModExp
end EvmEngine
