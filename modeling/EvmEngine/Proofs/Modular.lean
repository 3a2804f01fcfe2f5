import EvmEngine.Modular
import Mathlib.Data.Nat.ModEq
import Mathlib.Tactic.Ring

/-!
Repeated squaring computes the power. Whatever digits of the exponent are left, the result so far
times the present base to what is left of the exponent is the same modulo the modulus.
-/

namespace EvmEngine
namespace Modular

theorem powDigits_eq {modulus digits result base exponent : Nat} (reduced : result < modulus)
    (few : exponent < 2 ^ digits) :
    powDigits modulus digits result base exponent = result * base ^ exponent % modulus := by
  induction digits generalizing result base exponent with
  | zero =>
      obtain rfl : exponent = 0 := by simpa using few
      rw [powDigits, Nat.pow_zero, Nat.mul_one, Nat.mod_eq_of_lt reduced]
  | succ digits ih =>
      have fewer : exponent / 2 < 2 ^ digits := by
        rw [Nat.pow_succ] at few
        omega
      have squares : (base * base % modulus) ^ (exponent / 2) ≡ base ^ (2 * (exponent / 2))
          [MOD modulus] := by
        rw [Nat.pow_mul, Nat.pow_two]
        exact (Nat.mod_modEq _ _).pow _
      have split := Nat.div_add_mod exponent 2
      rw [powDigits]
      by_cases odd : exponent % 2 = 1
      · rw [if_pos odd, ih (Nat.mod_lt _ (by omega)) fewer]
        have step := (Nat.mod_modEq (result * base) modulus).mul squares
        rw [odd] at split
        calc result * base % modulus * (base * base % modulus) ^ (exponent / 2) % modulus
          _ = result * base * base ^ (2 * (exponent / 2)) % modulus := step
          _ = result * base ^ (2 * (exponent / 2) + 1) % modulus := by
              rw [Nat.pow_succ]
              ring_nf
          _ = result * base ^ exponent % modulus := by rw [split]
      · rw [if_neg odd, ih reduced fewer]
        have even : exponent % 2 = 0 := by omega
        rw [even, Nat.add_zero] at split
        have step := squares.mul_left result
        rw [split] at step
        exact step

theorem pow_eq {modulus : Nat} (positive : 0 < modulus) (base exponent : Nat) :
    pow base exponent modulus = base ^ exponent % modulus := by
  have few : exponent < 2 ^ (if exponent = 0 then 0 else exponent.log2 + 1) := by
    split
    · next zero => simp [zero]
    · exact Nat.lt_log2_self
  have one : 1 % modulus * (base % modulus) ^ exponent ≡ 1 * base ^ exponent [MOD modulus] :=
    (Nat.mod_modEq 1 modulus).mul ((Nat.mod_modEq base modulus).pow exponent)
  rw [Nat.one_mul] at one
  rw [pow, powDigits_eq (Nat.mod_lt 1 positive) few]
  exact one

end Modular
end EvmEngine
