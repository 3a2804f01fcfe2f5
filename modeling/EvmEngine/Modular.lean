/-!
Powers and inverses modulo a natural number, by repeated squaring.
-/

namespace EvmEngine
namespace Modular

/-- One step per binary digit of the exponent, lowest digit first. -/
def powDigits (modulus : Nat) : Nat → Nat → Nat → Nat → Nat
  | 0, result, _, _ => result
  | digits + 1, result, base, exponent =>
      powDigits modulus digits (if exponent % 2 = 1 then result * base % modulus else result)
        (base * base % modulus) (exponent / 2)

/-- The power reduced by the modulus. -/
def pow (base exponent modulus : Nat) : Nat :=
  powDigits modulus (if exponent = 0 then 0 else exponent.log2 + 1) (1 % modulus)
    (base % modulus) exponent

/-- The inverse of a number that the prime modulus does not divide. -/
def inverse (a prime : Nat) : Nat :=
  pow a (prime - 2) prime

def sub (a b modulus : Nat) : Nat :=
  (a + (modulus - b % modulus)) % modulus

end Modular
end EvmEngine
