import EvmEngine.Instruction.Compute
import Mathlib.Algebra.Group.Int.Defs
import Mathlib.Algebra.Group.Nat.Defs

/-!
Shifts, the extension of a sign and the choice of a byte, as operations on integers. Shifts multiply
and divide by powers of two for every count, the arithmetic one rounding toward minus infinity. The
extension reads the low bytes of a word as a signed number of their own, and a byte is a digit of the
word to the base 256.
-/

namespace EvmEngine
namespace Word

theorem toNat_shiftLeft (s w : Word) : (shiftLeft s w).toNat = w.toNat * 2 ^ s.toNat % 2 ^ 256 := by
  rw [shiftLeft]
  split
  · next wide =>
      have multiple := Nat.dvd_trans (Nat.pow_dvd_pow 2 wide) (Nat.dvd_mul_left _ w.toNat)
      rw [Nat.mod_eq_zero_of_dvd multiple]
      rfl
  · rw [BitVec.toNat_shiftLeft, Nat.shiftLeft_eq]

theorem toNat_shiftRight (s w : Word) : (shiftRight s w).toNat = w.toNat / 2 ^ s.toNat := by
  rw [shiftRight]
  split
  · next wide =>
      have beyond := Nat.lt_of_lt_of_le w.isLt (Nat.pow_le_pow_right (by decide) wide)
      rw [Nat.div_eq_of_lt beyond]
      rfl
  · rw [BitVec.toNat_ushiftRight, Nat.shiftRight_eq_div_pow]

theorem arithmeticShiftRight_eq (s w : Word) :
    arithmeticShiftRight s w = w.sshiftRight s.toNat := by
  rw [arithmeticShiftRight, isNegative]
  cases sign : w.msb with
  | false =>
      rw [BitVec.sshiftRight_eq_of_msb_false sign]
      apply BitVec.eq_of_toNat_eq
      simp [toNat_shiftRight, Nat.shiftRight_eq_div_pow]
  | true =>
      rw [BitVec.sshiftRight_eq_of_msb_true sign]
      by_cases wide : 256 ≤ s.toNat
      · simp [wide, BitVec.ushiftRight_eq_zero]
      · simp [wide]

theorem toInt_arithmeticShiftRight (s w : Word) :
    (arithmeticShiftRight s w).toInt = w.toInt.fdiv (2 ^ s.toNat) := by
  rw [arithmeticShiftRight_eq, BitVec.toInt_sshiftRight, Int.shiftRight_eq_div_pow,
    Int.fdiv_eq_ediv_of_nonneg]
  · norm_cast
  · exact Int.pow_nonneg (by decide)

/-- The word whose bits below a position are set, and no others. -/
def lowMask (n : Nat) : Word :=
  ↑(1 <<< n) - 1

theorem getLsbD_lowMask (n i : Nat) :
    (lowMask n).getLsbD i = (decide (i < 256) && decide (i < n)) := by
  have mask : lowMask n = BitVec.ofNat 256 (2 ^ n - 1) := by
    rw [← BitVec.ofNat_sub_ofNat_of_le _ _ (by decide) Nat.one_le_two_pow, lowMask,
      Nat.shiftLeft_eq, Nat.one_mul]
    rfl
  rw [mask, BitVec.getLsbD_ofNat, Nat.testBit_two_pow_sub_one]

/-- The bits below the sign bit stay, and it and those above it are all the same. -/
theorem getLsbD_signExtend {k : Word} (w : Word) (short : k.toNat ≤ 30) {i : Nat}
    (inside : i < 256) :
    (signExtend k w).getLsbD i = w.getLsbD (min i (8 * k.toNat + 7)) := by
  have unfolded : signExtend k w =
      if w.getLsbD (8 * k.toNat + 7) then w ||| ~~~lowMask (8 * k.toNat + 7)
      else w &&& lowMask (8 * k.toNat + 7) := by
    rw [signExtend, if_neg (by omega)]
    rfl
  have mask := getLsbD_lowMask (8 * k.toNat + 7) i
  rw [decide_eq_true inside, Bool.true_and] at mask
  rw [unfolded]
  by_cases below : i < 8 * k.toNat + 7
  · rw [decide_eq_true below] at mask
    rw [Nat.min_eq_left (Nat.le_of_lt below)]
    split
    · rw [BitVec.getLsbD_or, BitVec.getLsbD_not, mask, Bool.not_true, Bool.and_false, Bool.or_false]
    · rw [BitVec.getLsbD_and, mask, Bool.and_true]
  · rw [decide_eq_false below] at mask
    rw [Nat.min_eq_right (Nat.not_lt.mp below)]
    split
    · next negative =>
        rw [negative, BitVec.getLsbD_or, BitVec.getLsbD_not, mask, decide_eq_true inside,
          Bool.not_false, Bool.and_true, Bool.or_true]
    · next positive =>
        rw [Bool.eq_false_iff.mpr positive, BitVec.getLsbD_and, mask, Bool.and_false]

theorem signExtend_eq {k : Word} (w : Word) (short : k.toNat ≤ 30) :
    signExtend k w = (w.setWidth (8 * (k.toNat + 1))).signExtend 256 := by
  apply BitVec.eq_of_getLsbD_eq
  intro i inside
  have sign : 8 * (k.toNat + 1) - 1 = 8 * k.toNat + 7 := by omega
  rw [getLsbD_signExtend w short inside, BitVec.getLsbD_signExtend, BitVec.msb_setWidth, sign]
  by_cases low : i < 8 * (k.toNat + 1)
  · rw [Nat.min_eq_left (by omega)]
    simp [inside, low]
  · rw [Nat.min_eq_right (by omega)]
    simp [inside, low]

theorem toNat_byte (i w : Word) :
    (byte i w).toNat = if i.toNat < 32 then w.toNat / 256 ^ (31 - i.toNat) % 256 else 0 := by
  rw [byte]
  by_cases inside : i.toNat < 32
  · have digit : 2 ^ (8 * (31 - i.toNat)) = 256 ^ (31 - i.toNat) := Nat.pow_mul 2 8 _
    rw [if_neg (Nat.not_le.mpr inside), if_pos inside, BitVec.toNat_and, BitVec.toNat_ushiftRight,
      Nat.shiftRight_eq_div_pow, digit]
    exact Nat.and_two_pow_sub_one_eq_mod _ 8
  · rw [if_pos (Nat.not_lt.mp inside), if_neg inside]
    rfl

end Word

namespace BinaryOp

/-- Shifts, sign extension and the choice of a byte are those of the integers that the words stand
for. The count of a shift is the whole word, so that nothing is left from 256 on but the sign of an
arithmetic shift; the extension reads the low bytes up to byte `s` as a signed number; and byte `s`
is the digit to the base 256 that has as many digits above it. -/
theorem shifts_as_integers (s w : Word) :
    shiftLeft.apply s w = BitVec.ofNat 256 (w.toNat * 2 ^ s.toNat) ∧
    (shiftRight.apply s w).toNat = w.toNat / 2 ^ s.toNat ∧
    arithmeticShiftRight.apply s w = BitVec.ofInt 256 (w.toInt.fdiv (2 ^ s.toNat)) ∧
    (256 ≤ s.toNat →
      shiftLeft.apply s w = 0 ∧ shiftRight.apply s w = 0 ∧
      arithmeticShiftRight.apply s w = if w.toInt < 0 then -1 else 0) ∧
    signExtend.apply s w =
      (if s.toNat ≤ 30 then BitVec.ofInt 256 (w.setWidth (8 * (s.toNat + 1))).toInt else w) ∧
    (byte.apply s w).toNat =
      if s.toNat < 32 then w.toNat / 256 ^ (31 - s.toNat) % 256 else 0 := by
  refine ⟨?_, Word.toNat_shiftRight s w, ?_, ?_, ?_, Word.toNat_byte s w⟩
  · apply BitVec.eq_of_toNat_eq
    rw [BitVec.toNat_ofNat]
    exact Word.toNat_shiftLeft s w
  · rw [← Word.toInt_arithmeticShiftRight, BitVec.ofInt_toInt]
    rfl
  · intro wide
    refine ⟨if_pos wide, if_pos wide, ?_⟩
    show Word.arithmeticShiftRight s w = _
    rw [Word.arithmeticShiftRight, Word.isNegative, BitVec.msb_eq_toInt, Word.shiftRight]
    by_cases negative : w.toInt < 0
    · simp [negative, wide, BitVec.neg_one_eq_allOnes]
    · simp [negative, wide]
  · split
    · next short => exact Word.signExtend_eq w short
    · next long => exact if_pos (by omega)

/-- A count of more than 64 bits leaves nothing of a word but its sign. -/
theorem shifts_as_integers_of_huge_count :
    let s : Word := 0x100000000000000000000000000000001
    256 ≤ s.toNat ∧ shiftLeft.apply s (-8) = 0 ∧ shiftRight.apply s (-8) = 0 ∧
      arithmeticShiftRight.apply s (-8) = -1 := by
  intro s
  have wide : 256 ≤ s.toNat := by decide
  obtain ⟨-, -, -, far, -, -⟩ := shifts_as_integers s (-8)
  exact ⟨wide, (far wide).1, (far wide).2.1, (far wide).2.2.trans (if_pos (by decide))⟩

end BinaryOp
end EvmEngine
