/-!
Decimal numbers with a significand of 64 bits, and whether one is in the range of doubles. A digit
that the significand has no room for is dropped, so a long number is cut off and not rounded. The
range is that of arithmetic in doubles: the significand and the power of ten are each rounded, and
then so is their product.
-/

namespace EvmEngine

/-- The significand times the power of ten with this exponent. -/
structure Decimal where
  significand : Nat
  exponent : Int
  fits : significand < UInt64.size

namespace Decimal

def zero : Decimal :=
  ⟨0, 0, Nat.two_pow_pos 64⟩

/-- Writes a digit behind the significand where that still fits. -/
def push? (x : Decimal) (digit : Nat) : Option Decimal :=
  if h : 10 * x.significand + digit < UInt64.size then
    some ⟨10 * x.significand + digit, x.exponent, h⟩
  else none

/-- Takes digits before the point. From the first that does not fit, each is a factor of ten. -/
def takeWhole (x : Decimal) : List Nat → Decimal
  | [] => x
  | digit :: digits =>
      match x.push? digit with
      | some x => x.takeWhole digits
      | none => { x with exponent := x.exponent + (digits.length + 1) }

/-- Takes digits after the point, up to the first that does not fit. -/
def takeFraction (x : Decimal) : List Nat → Decimal
  | [] => x
  | digit :: digits =>
      match x.push? digit with
      | some x => { x with exponent := x.exponent - 1 }.takeFraction digits
      | none => x

def scale (x : Decimal) (exponent : Int) : Decimal :=
  { x with exponent := x.exponent + exponent }

/-- The number of significant bits of a double. -/
def doubleBits : Nat := 53

/-- The nearest number with so many significant bits, and of two the one that is even in the last
of these. -/
def roundToDouble (n : Nat) : Nat :=
  let dropped := n.log2 + 1 - doubleBits
  let unit := Nat.pow 2 dropped
  let kept := n / unit
  let rest := n % unit
  if unit < 2 * rest ∨ 2 * rest = unit ∧ kept % 2 = 1 then (kept + 1) * unit else kept * unit

/-- The least number that is rounded to infinity: half a unit in the last bit above the largest
double. -/
def doubleLimit : Nat :=
  Nat.pow 2 1024 - Nat.pow 2 970

/-- The largest exponent of a power of ten that is a double. -/
def maxPower : Int := 308

def isFinite (x : Decimal) : Bool :=
  if x.significand = 0 ∨ x.exponent < 0 then true
  else if maxPower < x.exponent then false
  else
    roundToDouble x.significand * roundToDouble (Nat.pow 10 x.exponent.toNat) < doubleLimit

end Decimal
end EvmEngine
