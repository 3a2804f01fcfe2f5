import EvmEngine.Proofs.Pricing.Saturation
import Mathlib.Algebra.Order.Ring.Nat

/-!
The price of memory. What it costs to grow is the difference between the prices of the larger memory
and of the smaller one, so that it makes no difference in how many steps memory grows. The price is
the exact one as long as the square of the size is a machine integer; beyond that the square is
capped before it is divided, and memory becomes too cheap.
-/

namespace EvmEngine
namespace Gas

/-- The price of a memory of so many words in exact numbers: a linear term and a quadratic one. -/
def exactMemoryCost (words wordCost quadDivisor : Nat) : Nat :=
  words * wordCost + words * words / max quadDivisor 1

variable {old new words wordCost quadDivisor : UInt64}

theorem toNat_memoryCost (words wordCost quadDivisor : UInt64) :
    (memoryCost words wordCost quadDivisor).toNat =
      min (words.toNat * wordCost.toNat +
        min (words.toNat * words.toNat) (UInt64.size - 1) / max quadDivisor.toNat 1)
        (UInt64.size - 1) := by
  have one : (1 : UInt64).toNat = 1 := rfl
  rw [memoryCost, toNat_satAdd, toNat_satMul, UInt64.toNat_div, toNat_satMul, toNat_max, one]
  generalize min (words.toNat * words.toNat) (UInt64.size - 1) / max quadDivisor.toNat 1 = quadratic
  omega

theorem memoryCost_zero (wordCost quadDivisor : UInt64) :
    (memoryCost 0 wordCost quadDivisor).toNat = 0 := by
  simp [toNat_memoryCost]

theorem memoryCost_mono (wordCost quadDivisor : UInt64) (le : old ≤ new) :
    (memoryCost old wordCost quadDivisor).toNat ≤ (memoryCost new wordCost quadDivisor).toNat := by
  have le := UInt64.le_iff_toNat_le.mp le
  have linear : old.toNat * wordCost.toNat ≤ new.toNat * wordCost.toNat :=
    Nat.mul_le_mul_right _ le
  have square : old.toNat * old.toNat ≤ new.toNat * new.toNat := Nat.mul_le_mul le le
  have quadratic : min (old.toNat * old.toNat) (UInt64.size - 1) / max quadDivisor.toNat 1 ≤
      min (new.toNat * new.toNat) (UInt64.size - 1) / max quadDivisor.toNat 1 :=
    Nat.div_le_div_right (by omega)
  rw [toNat_memoryCost, toNat_memoryCost]
  omega

/-- Growing costs the difference of two prices, and nothing where memory is large enough. -/
theorem toNat_memoryExpansionCost (old new wordCost quadDivisor : UInt64) :
    (memoryExpansionCost old new wordCost quadDivisor).toNat =
      (memoryCost new wordCost quadDivisor).toNat - (memoryCost old wordCost quadDivisor).toNat := by
  simp only [memoryExpansionCost]
  split
  · next enough =>
      have cheaper := memoryCost_mono wordCost quadDivisor enough
      rw [UInt64.toNat_zero]
      omega
  · exact toNat_satSub _ _

/-- What is paid for a memory and for its growth is the price of the larger one. -/
theorem memoryCost_add_expansion (old new wordCost quadDivisor : UInt64) :
    (memoryCost old wordCost quadDivisor).toNat +
        (memoryExpansionCost old new wordCost quadDivisor).toNat =
      (memoryCost (max old new) wordCost quadDivisor).toNat := by
  rw [toNat_memoryExpansionCost]
  show _ = (memoryCost (if old ≤ new then new else old) wordCost quadDivisor).toNat
  split
  · next le =>
      have cheaper := memoryCost_mono wordCost quadDivisor le
      omega
  · next more =>
      have less := UInt64.lt_iff_toNat_lt.mp (UInt64.not_le.mp more)
      have cheaper := memoryCost_mono wordCost quadDivisor
        (UInt64.le_iff_toNat_le.mpr (Nat.le_of_lt less))
      omega

theorem exactMemoryCost_mono {old new : Nat} (wordCost quadDivisor : Nat) (le : old ≤ new) :
    exactMemoryCost old wordCost quadDivisor ≤ exactMemoryCost new wordCost quadDivisor := by
  have linear : old * wordCost ≤ new * wordCost := Nat.mul_le_mul_right _ le
  have quadratic : old * old / max quadDivisor 1 ≤ new * new / max quadDivisor 1 :=
    Nat.div_le_div_right (Nat.mul_le_mul le le)
  exact Nat.add_le_add linear quadratic

/-- A size whose square is a machine integer. -/
theorem square_fits_iff (words : UInt64) :
    words.toNat * words.toNat ≤ UInt64.size - 1 ↔ words.toNat < UInt32.size := by
  have size : UInt64.size = UInt32.size * UInt32.size := rfl
  have pos : 0 < UInt64.size := by decide
  rw [show words.toNat * words.toNat ≤ UInt64.size - 1 ↔
    words.toNat * words.toNat < UInt32.size * UInt32.size by omega]
  exact Nat.mul_self_lt_mul_self_iff

/-- A number that is capped before it is divided gives the same quotient where it is below the cap, or
where the cap has that quotient too. -/
theorem min_div_eq_iff (n ceiling divisor : Nat) :
    min n ceiling / divisor = n / divisor ↔ n ≤ ceiling ∨ n / divisor = ceiling / divisor := by
  obtain fits | beyond := Nat.le_total n ceiling
  · simp [fits]
  · rw [Nat.min_eq_right beyond]
    constructor
    · exact fun same => .inr same.symm
    · rintro (fits | same)
      · rw [Nat.le_antisymm fits beyond]
      · exact same.symm

/-- A price that is exact and not capped makes those of all smaller memories exact. -/
theorem memoryCost_eq_of_le (le : old ≤ new)
    (exact : (memoryCost new wordCost quadDivisor).toNat =
      exactMemoryCost new.toNat wordCost.toNat quadDivisor.toNat) :
    (memoryCost old wordCost quadDivisor).toNat =
      exactMemoryCost old.toNat wordCost.toNat quadDivisor.toNat := by
  have bounded := (memoryCost new wordCost quadDivisor).toNat_lt_size
  have cheaper := exactMemoryCost_mono wordCost.toNat quadDivisor.toNat
    (UInt64.le_iff_toNat_le.mp le)
  have squares : old.toNat * old.toNat ≤ new.toNat * new.toNat :=
    Nat.mul_le_mul (UInt64.le_iff_toNat_le.mp le) (UInt64.le_iff_toNat_le.mp le)
  have quotients := Nat.div_le_div_right (c := max quadDivisor.toNat 1) squares
  have least := Nat.div_le_div_right (c := max quadDivisor.toNat 1)
    (Nat.min_le_left (new.toNat * new.toNat) (UInt64.size - 1))
  have divided : min (old.toNat * old.toNat) (UInt64.size - 1) / max quadDivisor.toNat 1 =
      old.toNat * old.toNat / max quadDivisor.toNat 1 := by
    have divided : min (new.toNat * new.toNat) (UInt64.size - 1) / max quadDivisor.toNat 1 =
        new.toNat * new.toNat / max quadDivisor.toNat 1 := by
      rw [toNat_memoryCost] at exact
      simp only [exactMemoryCost] at exact
      omega
    rw [min_div_eq_iff] at divided ⊢
    obtain fits | same := divided
    · exact .inl (squares.trans fits)
    · obtain fits | beyond := Nat.le_total (old.toNat * old.toNat) (UInt64.size - 1)
      · exact .inl fits
      · exact .inr (Nat.le_antisymm (same ▸ quotients) (Nat.div_le_div_right beyond))
  rw [toNat_memoryCost, divided]
  simp only [exactMemoryCost] at cheaper exact ⊢
  omega

/-- The price of memory is the exact one, capped at the largest machine integer, where the square of
the size is a machine integer too, where what is left of the quadratic term is enough to reach the cap,
or where the division hides the difference; otherwise it is too low. Up to a size whose price is exact
and below the cap, growing costs exactly the difference of two prices. -/
theorem memoryCost_exact_iff (words wordCost quadDivisor : UInt64) :
    let exact (words : UInt64) := exactMemoryCost words.toNat wordCost.toNat quadDivisor.toNat
    let ceiling := UInt64.size - 1
    let divisor := max quadDivisor.toNat 1
    (memoryCost words wordCost quadDivisor).toNat ≤ min (exact words) ceiling ∧
      ((memoryCost words wordCost quadDivisor).toNat = min (exact words) ceiling ↔
        words.toNat < UInt32.size ∨
          ceiling ≤ words.toNat * wordCost.toNat + ceiling / divisor ∨
          words.toNat * words.toNat / divisor = ceiling / divisor) ∧
      ((memoryCost words wordCost quadDivisor).toNat = exact words → ∀ old ≤ words,
        (memoryExpansionCost old words wordCost quadDivisor).toNat = exact words - exact old) := by
  intro exact ceiling divisor
  have least := Nat.div_le_div_right (c := divisor)
    (Nat.min_le_left (words.toNat * words.toNat) ceiling)
  refine ⟨?_, ?_, fun priced old le => ?_⟩
  · rw [toNat_memoryCost]
    show min (_ + min _ ceiling / divisor) ceiling ≤ min (_ + _ / divisor) ceiling
    omega
  · rw [toNat_memoryCost, ← square_fits_iff]
    show min (_ + min _ ceiling / divisor) ceiling = min (_ + _ / divisor) ceiling ↔ _
    obtain fits | beyond := Nat.le_total (words.toNat * words.toNat) ceiling
    · simp only [Nat.min_eq_left fits, true_iff]
      exact .inl fits
    · rw [Nat.min_eq_right beyond] at least ⊢
      constructor
      · intro same
        omega
      · rintro (fits | reached | same)
        · rw [Nat.le_antisymm beyond fits]
        · omega
        · rw [same]
  · rw [toNat_memoryExpansionCost, priced, memoryCost_eq_of_le le priced]

/-- A memory of 32 words that has held one before, under the prices of every upgrade. -/
theorem memoryCost_exact_iff_of_word :
    (memoryCost 32 3 512).toNat = exactMemoryCost 32 3 512 ∧ (1 : UInt64) ≤ 32 ∧
      (memoryExpansionCost 1 32 3 512).toNat = 95 := by
  have priced : (memoryCost 32 3 512).toNat = exactMemoryCost 32 3 512 := by decide
  have le : (1 : UInt64) ≤ 32 := by decide
  exact ⟨priced, le, (memoryCost_exact_iff 32 3 512).2.2 priced 1 le⟩

/-- From 2^33 words to twice as many under the same prices: the quadratic term has stopped growing far
below the cap, and growth costs next to nothing. -/
theorem memoryCost_too_low_of_large :
    (memoryCost 17179869184 3 512).toNat = 36028848558571519 ∧
      min (exactMemoryCost 17179869184 3 512) (UInt64.size - 1) = 576460803843031040 ∧
      (memoryExpansionCost 8589934592 17179869184 3 512).toNat = 25769803776 ∧
      exactMemoryCost 17179869184 3 512 - exactMemoryCost 8589934592 3 512 =
        432345589997371392 := by
  decide

end Gas
end EvmEngine
