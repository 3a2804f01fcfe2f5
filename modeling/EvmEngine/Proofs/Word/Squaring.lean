import EvmEngine.Proofs.Pricing.Saturation
import Mathlib.Data.BitVec
import Mathlib.Logic.Function.Iterate
import Mathlib.Order.Bounds.Defs
import Mathlib.Tactic.Ring

/-!
Repeated squaring on words. Every step keeps the result so far times the present square to what is
left of the exponent, with all products wrapping, and takes one binary digit off the exponent. So
the steps end with the digits, and what they leave is the power.
-/

namespace EvmEngine
namespace Word

theorem toNat_lt_two_pow_iff (w : Word) (n : Nat) : w.toNat < 2 ^ n ↔ w.bitLength ≤ n := by
  rw [bitLength]
  split
  · next zero => simp [zero]
  · next nonzero =>
      have positive : w.toNat ≠ 0 := fun zero => nonzero (BitVec.eq_of_toNat_eq zero)
      exact (Nat.log2_lt positive).symm.trans Nat.lt_iff_add_one_le

theorem toNat_lt_256_pow_iff (w : Word) (n : Nat) : w.toNat < 256 ^ n ↔ w.byteLength ≤ n := by
  have power : 256 ^ n = 2 ^ (8 * n) := (Nat.pow_mul 2 8 n).symm
  rw [power, toNat_lt_two_pow_iff, byteLength]
  omega

namespace Squaring

variable (q : Squaring)

/-- The power that is still to be had: what no step changes. -/
def value : Word :=
  q.result * q.square ^ q.exponent.toNat

theorem result_step :
    q.step.result =
      if q.exponent.toNat % 2 = 1 then q.result * q.square else q.result := by
  simp only [step, BitVec.getLsbD, Nat.testBit_zero, decide_eq_true_eq]

theorem value_step : q.step.value = q.value := by
  have halves := Nat.div_add_mod q.exponent.toNat 2
  rw [value, exponent_step, result_step]
  by_cases odd : q.exponent.toNat % 2 = 1
  · rw [odd] at halves
    calc (if q.exponent.toNat % 2 = 1 then q.result * q.square else q.result)
          * q.step.square ^ (q.exponent.toNat / 2)
      _ = q.result * q.square * (q.square * q.square) ^ (q.exponent.toNat / 2) := by
          rw [if_pos odd, step]
      _ = q.result * q.square ^ (2 * (q.exponent.toNat / 2) + 1) := by ring
      _ = q.value := by rw [halves, value]
  · have even : q.exponent.toNat % 2 = 0 := by omega
    rw [even, Nat.add_zero] at halves
    calc (if q.exponent.toNat % 2 = 1 then q.result * q.square else q.result)
          * q.step.square ^ (q.exponent.toNat / 2)
      _ = q.result * (q.square * q.square) ^ (q.exponent.toNat / 2) := by
          rw [if_neg odd, step]
      _ = q.result * q.square ^ (2 * (q.exponent.toNat / 2)) := by ring
      _ = q.value := by rw [halves, value]

theorem value_iterate (n : Nat) : (step^[n] q).value = q.value := by
  induction n with
  | zero => rfl
  | succ n ih => rw [Function.iterate_succ_apply', value_step, ih]

theorem exponent_iterate (n : Nat) :
    (step^[n] q).exponent.toNat = q.exponent.toNat / 2 ^ n := by
  induction n with
  | zero => simp
  | succ n ih =>
      rw [Function.iterate_succ_apply', exponent_step, ih, Nat.div_div_eq_div_mul, Nat.pow_succ]

/-- Nothing is left of the exponent after as many steps as it has digits, and not before. -/
theorem exponent_iterate_eq_zero_iff (n : Nat) :
    (step^[n] q).exponent = 0 ↔ q.exponent.bitLength ≤ n := by
  rw [← toNat_lt_two_pow_iff, BitVec.toNat_eq, exponent_iterate]
  exact Nat.div_eq_zero_iff_lt (Nat.two_pow_pos n)

variable {q}

theorem value_of_ended (ended : q.exponent = 0) : q.value = q.result := by
  rw [value, ended]
  exact mul_one _

/-- The run is that of the steps up to the first that leaves nothing of the exponent. -/
theorem run_of_ends {n : Nat} (before : ∀ m < n, (step^[m] q).exponent ≠ 0)
    (ended : (step^[n] q).exponent = 0) : q.run = (step^[n] q).result := by
  induction n generalizing q with
  | zero =>
      have spent : q.exponent = 0 := ended
      rw [run, if_pos spent]
      rfl
  | succ n ih =>
      have going : q.exponent ≠ 0 := before 0 (Nat.succ_pos n)
      rw [run, if_neg going]
      exact ih (fun m less => before (m + 1) (Nat.succ_lt_succ less)) ended

theorem run_eq_iterate (q : Squaring) : q.run = (step^[q.exponent.bitLength] q).result :=
  run_of_ends
    (fun m less ended =>
      Nat.not_lt.mpr ((exponent_iterate_eq_zero_iff q m).mp ended) less)
    ((exponent_iterate_eq_zero_iff q _).mpr (Nat.le_refl _))

theorem run_eq_value (q : Squaring) : q.run = q.value := by
  have ended := (exponent_iterate_eq_zero_iff q _).mpr (Nat.le_refl q.exponent.bitLength)
  rw [run_eq_iterate, ← value_of_ended ended, value_iterate]

end Squaring

theorem pow_eq_ofNat (base exponent : Word) :
    pow base exponent = BitVec.ofNat 256 (base.toNat ^ exponent.toNat) := by
  rw [pow, Squaring.run_eq_value, Squaring.value, one_mul, ← BitVec.natCast_eq_ofNat, Nat.cast_pow,
    BitVec.natCast_eq_ofNat, BitVec.ofNat_toNat, BitVec.setWidth_eq]

end Word

namespace Gas

theorem toNat_expCost (gas : GasSchedule) (exponent : Word) :
    (expCost gas exponent).toNat =
      min (gas.expByte.toNat * exponent.byteLength) (UInt64.size - 1) := by
  have short : exponent.byteLength ≤ 32 := (Word.toNat_lt_256_pow_iff exponent 32).mp exponent.isLt
  have fits : exponent.byteLength ≤ UInt64.size - 1 := Nat.le_trans short (by decide)
  rw [expCost, toNat_satMul, toNat_ofLength, Nat.min_eq_left fits]

/-- An exponent of two bytes at the largest price per byte costs that price, and not twice as much. -/
theorem expCost_capped_of_huge_price :
    let gas := { GasSchedule.ofFork .istanbul with expByte := 18446744073709551615 }
    let exponent : Word := 256
    IsLeast {n | exponent.toNat < 256 ^ n} 2 ∧
      (expCost gas exponent).toNat = 18446744073709551615 ∧
      (expCost gas exponent).toNat ≠ gas.expByte.toNat * 2 := by
  intro gas exponent
  have length : exponent.byteLength = 2 := by decide +kernel
  refine ⟨⟨by decide +kernel, fun n below => ?_⟩, by decide +kernel, by decide +kernel⟩
  rw [← length]
  exact (Word.toNat_lt_256_pow_iff exponent n).mp below

end Gas

namespace Word

/-- Exponentiation is by repeated squaring: the steps leave nothing of the exponent after as many of
them as it has binary digits and not before, and then the result is the power of the two numbers,
reduced to a word. The price counts the bytes of the exponent, up to the largest machine integer. -/
theorem pow_by_squaring (gas : GasSchedule) (base exponent : Word) :
    let start : Squaring := ⟨1, base, exponent⟩
    (∀ n, (Squaring.step^[n] start).exponent = 0 ↔ exponent.bitLength ≤ n) ∧
    IsLeast {n | exponent.toNat < 2 ^ n} exponent.bitLength ∧
    pow base exponent = (Squaring.step^[exponent.bitLength] start).result ∧
    pow base exponent = BitVec.ofNat 256 (base.toNat ^ exponent.toNat) ∧
    pow 0 0 = 1 ∧
    IsLeast {n | exponent.toNat < 256 ^ n} exponent.byteLength ∧
    (Gas.expCost gas exponent).toNat =
      min (gas.expByte.toNat * exponent.byteLength) (UInt64.size - 1) := by
  intro start
  refine ⟨Squaring.exponent_iterate_eq_zero_iff start, ⟨?_, fun n below => ?_⟩,
    Squaring.run_eq_iterate start, pow_eq_ofNat base exponent, pow_eq_ofNat 0 0,
    ⟨?_, fun n below => ?_⟩, Gas.toNat_expCost gas exponent⟩
  · exact (toNat_lt_two_pow_iff exponent _).mpr (Nat.le_refl _)
  · exact (toNat_lt_two_pow_iff exponent n).mp below
  · exact (toNat_lt_256_pow_iff exponent _).mpr (Nat.le_refl _)
  · exact (toNat_lt_256_pow_iff exponent n).mp below

end Word
end EvmEngine
