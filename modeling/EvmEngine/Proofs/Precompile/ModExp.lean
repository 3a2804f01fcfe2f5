import EvmEngine.Precompile.ModExp
import EvmEngine.Proofs.Pricing.Saturation

/-!
The price of modular exponentiation against the formula in exact numbers: the complexity of one
multiplication, times the number of multiplications, divided by twenty. A length of the base or of the
modulus past 32 bits counts as unpayable, which is more than the formula asks of some; and the number
of multiplications is capped before it is divided, which is less than the formula asks of small numbers
with an enormous exponent. Everywhere else the price is exact.
-/

namespace EvmEngine
namespace ModExp

/-- The price of one multiplication of numbers of a length, whatever the length. -/
def complexity (length : Nat) : Nat :=
  if length ≤ 64 then length * length
  else if length ≤ 1024 then length * length / 4 + 96 * length - 3072
  else length * length / 16 + 480 * length - 199680

/-- The place of the highest digit of an exponent whose first 32 bytes are given. -/
def exponentPlace (exponentLength head : Nat) : Nat :=
  head.log2 + 8 * (exponentLength - 32)

/-- The price in exact numbers. -/
def exactCost (baseLength exponentLength modulusLength head : Nat) : Nat :=
  complexity (max baseLength modulusLength) * max (exponentPlace exponentLength head) 1 / 20

theorem multiplicationComplexity?_eq (length : Nat) :
    multiplicationComplexity? length =
      if UInt32.size ≤ length then none else some (complexity length) := by
  have limit : UInt32.size - 1 < length ↔ UInt32.size ≤ length := by
    have pos : 0 < UInt32.size := by decide
    omega
  simp only [multiplicationComplexity?, complexity, limit]
  split
  · rfl
  · split
    · rfl
    · split <;> rfl

theorem bitLength_sub_one (w : Word) : w.bitLength - 1 = w.toNat.log2 := by
  simp only [Word.bitLength]
  split
  · next zero =>
      rw [zero]
      rfl
  · rfl

theorem bitLength_le (w : Word) : w.bitLength ≤ 256 := by
  simp only [Word.bitLength]
  split
  · decide
  · next nonzero =>
      have pos : w.toNat ≠ 0 := fun zero => nonzero (BitVec.toNat_inj.mp zero)
      exact Nat.succ_le_of_lt ((Nat.log2_lt pos).mpr w.isLt)

/-- However the caps are nested, they cut the number of multiplications off once. -/
theorem iterationCount_eq (exponentLength : Nat) (head : Word) :
    iterationCount exponentLength head =
      min (max (exponentPlace exponentLength head.toNat) 1) (UInt64.size - 1) := by
  have digits := bitLength_sub_one head
  have few := bitLength_le head
  have size : UInt64.size = 2 ^ 64 := rfl
  simp only [iterationCount, exponentPlace, ← digits]
  split
  · omega
  · omega

theorem toNat_gasCost (baseLength exponentLength modulusLength head : Word) :
    (gasCost baseLength exponentLength modulusLength head).toNat =
      if UInt32.size ≤ max baseLength.toNat modulusLength.toNat then UInt64.size - 1
      else min (complexity (max baseLength.toNat modulusLength.toNat) *
        min (max (exponentPlace exponentLength.toNat head.toNat) 1) (UInt64.size - 1) / 20)
        (UInt64.size - 1) := by
  simp only [gasCost, multiplicationComplexity?_eq, iterationCount_eq]
  split
  · next none =>
      split at none
      · next long =>
          rw [if_pos long]
          rfl
      · cases none
  · next some =>
      split at some
      · cases some
      · next short =>
          cases some
          rw [if_neg short]
          exact Gas.toNat_ofNat_capped _

/-- A multiplication of numbers of five bytes or more costs more than the divisor. -/
theorem twenty_le_complexity {length : Nat} (many : 5 ≤ length) : 20 ≤ complexity length := by
  have square : 5 * 5 ≤ length * length := Nat.mul_le_mul many many
  simp only [complexity]
  split
  · omega
  · split <;> omega

theorem complexity_le {length : Nat} (few : length < 5) : complexity length ≤ 16 := by
  rw [complexity, if_pos (by omega)]
  exact Nat.mul_le_mul (Nat.le_of_lt_succ few) (Nat.le_of_lt_succ few)

/-- The price is the exact one, capped at the largest machine integer, in these cases and no others:
where a length is past 32 bits, the exact price reaches the cap too; else the number of
multiplications is below the cap, or one of them costs as much as the divisor, or the division hides
the difference. It is too high where a length is past 32 bits, and too low elsewhere. -/
theorem gasCost_exact_iff (baseLength exponentLength modulusLength head : Word) :
    let longest := max baseLength.toNat modulusLength.toNat
    let iterations := max (exponentPlace exponentLength.toNat head.toNat) 1
    let exact := exactCost baseLength.toNat exponentLength.toNat modulusLength.toNat head.toNat
    let ceiling := UInt64.size - 1
    let priced := (gasCost baseLength exponentLength modulusLength head).toNat
    (priced = min exact ceiling ↔
      if UInt32.size ≤ longest then ceiling ≤ exact
      else iterations ≤ ceiling ∨ 5 ≤ longest ∨
        exact = complexity longest * ceiling / 20) ∧
      if UInt32.size ≤ longest then min exact ceiling ≤ priced ∧ priced = ceiling
      else priced ≤ min exact ceiling := by
  intro longest iterations exact ceiling priced
  have price : priced = if UInt32.size ≤ longest then ceiling
      else min (complexity longest * min iterations ceiling / 20) ceiling :=
    toNat_gasCost baseLength exponentLength modulusLength head
  have formula : exact = complexity longest * iterations / 20 := rfl
  obtain short | long := Nat.lt_or_ge longest UInt32.size
  · have below : ¬ UInt32.size ≤ longest := Nat.not_le.mpr short
    rw [if_neg below] at price
    rw [if_neg below, if_neg below]
    have least := Nat.div_le_div_right (c := 20)
      (Nat.mul_le_mul_left (complexity longest) (Nat.min_le_left iterations ceiling))
    refine ⟨?_, by omega⟩
    obtain fits | beyond := Nat.le_total iterations ceiling
    · rw [Nat.min_eq_left fits] at price
      exact ⟨fun _ => .inl fits, fun _ => by omega⟩
    · rw [Nat.min_eq_right beyond] at price least
      constructor
      · intro same
        obtain few | many := Nat.lt_or_ge longest 5
        · have cheap : complexity longest * ceiling / 20 ≤ 16 * ceiling / 20 :=
            Nat.div_le_div_right (Nat.mul_le_mul_right _ (complexity_le few))
          have pos : 0 < ceiling := by decide
          exact .inr (.inr (by omega))
        · exact .inr (.inl many)
      · rintro (fits | many | same)
        · rw [formula, price, Nat.le_antisymm fits beyond]
        · have dear : ceiling ≤ complexity longest * ceiling / 20 := by
            rw [Nat.le_div_iff_mul_le (by decide), Nat.mul_comm]
            exact Nat.mul_le_mul_right _ (twenty_le_complexity many)
          omega
        · omega
  · rw [if_pos long] at price
    rw [if_pos long, if_pos long]
    exact ⟨by omega, by omega⟩

/-- A base of 2^32 bytes with no exponent and no modulus costs the largest machine integer, though the
formula asks for less; a base of one byte with an exponent of 2^64 bytes costs an eighth of what the
formula asks for. -/
theorem gasCost_not_exact_of_large :
    (gasCost 4294967296 0 0 0).toNat = 18446744073709551615 ∧
      exactCost 4294967296 0 0 0 = 57646178309547468 ∧
      (gasCost 1 18446744073709551616 0 0).toNat = 922337203685477580 ∧
      exactCost 1 18446744073709551616 0 0 = 7378697629483820633 := by
  decide

end ModExp
end EvmEngine
