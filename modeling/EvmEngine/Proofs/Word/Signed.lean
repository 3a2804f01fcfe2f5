import EvmEngine.Instruction.Compute

/-!
The signed operations as operations on integers. A word stands for the integer from -2^255 up to
2^255 that it is in two's complement. Dividing magnitudes and putting the signs back divides these
integers toward zero, with the remainder that belongs to it, and the comparison by signs is theirs.
Only the least integer divided by -1 has a quotient that is no word; it wraps to the least integer.
-/

namespace EvmEngine
namespace Word

theorem signedDiv_eq {a b : Word} (nonzero : b ≠ 0) : a.signedDiv b = a.sdiv b := by
  rw [signedDiv, if_neg nonzero, BitVec.sdiv_eq]
  obtain ha | ha := Bool.eq_false_or_eq_true a.msb <;>
    obtain hb | hb := Bool.eq_false_or_eq_true b.msb <;>
    simp [magnitude, isNegative, ha, hb]

theorem signedMod_eq {a b : Word} (nonzero : b ≠ 0) : a.signedMod b = a.srem b := by
  rw [signedMod, if_neg nonzero, BitVec.srem_eq]
  obtain ha | ha := Bool.eq_false_or_eq_true a.msb <;>
    obtain hb | hb := Bool.eq_false_or_eq_true b.msb <;>
    simp [magnitude, isNegative, ha, hb]

theorem toInt_signedMod {a b : Word} (nonzero : b ≠ 0) :
    (a.signedMod b).toInt = a.toInt.tmod b.toInt := by
  rw [signedMod_eq nonzero, BitVec.toInt_srem]

theorem signedDiv_eq_ofInt {a b : Word} (nonzero : b ≠ 0) :
    a.signedDiv b = BitVec.ofInt 256 (a.toInt.tdiv b.toInt) := by
  apply BitVec.eq_of_toInt_eq
  rw [signedDiv_eq nonzero, BitVec.toInt_sdiv, BitVec.toInt_ofInt]

/-- The quotient and the remainder make up the dividend, whether or not the quotient fits. -/
theorem signedDiv_mul_add_signedMod {a b : Word} (nonzero : b ≠ 0) :
    a.signedDiv b * b + a.signedMod b = a := by
  have remainder : a.signedMod b = BitVec.ofInt 256 (a.toInt.tmod b.toInt) := by
    rw [← toInt_signedMod nonzero, BitVec.ofInt_toInt]
  calc a.signedDiv b * b + a.signedMod b
    _ = BitVec.ofInt 256 (a.toInt.tdiv b.toInt) * BitVec.ofInt 256 b.toInt
          + BitVec.ofInt 256 (a.toInt.tmod b.toInt) := by
        rw [signedDiv_eq_ofInt nonzero, remainder, BitVec.ofInt_toInt]
    _ = BitVec.ofInt 256 (b.toInt * a.toInt.tdiv b.toInt + a.toInt.tmod b.toInt) := by
        rw [BitVec.ofInt_add, BitVec.ofInt_mul, BitVec.mul_comm]
    _ = a := by rw [Int.mul_tdiv_add_tmod, BitVec.ofInt_toInt]

theorem signedLess_eq (a b : Word) : a.signedLess b = decide (a.toInt < b.toInt) := by
  have below := a.isLt
  have below' := b.isLt
  simp only [signedLess, isNegative, BitVec.toInt_eq_msb_cond, BitVec.lt_def]
  cases a.msb <;> cases b.msb <;> simp <;> omega

end Word

namespace BinaryOp

/-- Signed division, remainder and comparison are those of the integers that the words stand for:
the quotient is truncated toward zero and wraps where it is no word, the remainder has the sign of
the dividend and is less than the divisor in size, and the two make up the dividend again. -/
theorem signed_as_integers (a b : Word) :
    let quotient := signedDiv.apply a b
    let remainder := signedMod.apply a b
    (if b = 0 then quotient = 0 ∧ remainder = 0
      else
        quotient = BitVec.ofInt 256 (a.toInt.tdiv b.toInt) ∧
        (if a = BitVec.intMin 256 ∧ b = -1 then quotient = a
          else quotient.toInt = a.toInt.tdiv b.toInt) ∧
        remainder.toInt = a.toInt.tmod b.toInt ∧
        (remainder.toInt = 0 ∨ remainder.toInt.sign = a.toInt.sign) ∧
        remainder.toInt.natAbs < b.toInt.natAbs ∧
        add.apply (mul.apply quotient b) remainder = a) ∧
    signedLess.apply a b = Word.ofBool (a.toInt < b.toInt) ∧
    signedGreater.apply a b = Word.ofBool (b.toInt < a.toInt) := by
  intro quotient remainder
  refine ⟨?_, by rw [apply, Word.signedLess_eq], by rw [apply, Word.signedLess_eq]⟩
  split
  · next zero =>
      subst zero
      exact ⟨rfl, rfl⟩
  · next nonzero =>
      have exact : remainder.toInt = a.toInt.tmod b.toInt := Word.toInt_signedMod nonzero
      have divisor : b.toInt ≠ 0 := fun zero => nonzero (BitVec.eq_of_toInt_eq zero)
      refine ⟨Word.signedDiv_eq_ofInt nonzero, ?_, exact, ?_, ?_,
        Word.signedDiv_mul_add_signedMod nonzero⟩
      · split
        · next corner =>
            obtain ⟨rfl, rfl⟩ := corner
            decide
        · next fits =>
            have apart : a ≠ BitVec.intMin 256 ∨ b ≠ -1#256 :=
              Decidable.not_and_iff_not_or_not.mp fits
            show (a.signedDiv b).toInt = _
            rw [Word.signedDiv_eq nonzero, BitVec.toInt_sdiv_of_ne_or_ne a b apart]
      · rw [exact, Int.sign_tmod]
        split
        · next divides => exact .inl (Int.tmod_eq_zero_of_dvd divides)
        · exact .inr rfl
      · rw [exact, Int.natAbs_tmod]
        exact Nat.mod_lt _ (Int.natAbs_pos.mpr divisor)

/-- Minus seven by two. -/
example : signedDiv.apply (-7) 2 = -3 ∧ signedMod.apply (-7) 2 = -1 := by decide

end BinaryOp
end EvmEngine
