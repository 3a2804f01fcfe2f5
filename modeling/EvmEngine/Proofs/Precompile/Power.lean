import EvmEngine.Precompile
import EvmEngine.Proofs.Bytes
import EvmEngine.Proofs.Modular

/-!
What modular exponentiation answers. The input counts as one that goes on with zeros for ever: three
lengths, and then three numbers as long as these say. However much of it is missing, the answer
spells the power of the numbers at the width of the modulus, and the price is that of the lengths
and of the first digits of the exponent.
-/

namespace EvmEngine

open Bytes

namespace ModExp

variable {input out : ByteArray}

def baseLength (input : ByteArray) : Nat :=
  numeral (extended input) 0 32

def exponentLength (input : ByteArray) : Nat :=
  numeral (extended input) 32 32

def modulusLength (input : ByteArray) : Nat :=
  numeral (extended input) 64 32

def base (input : ByteArray) : Nat :=
  numeral (extended input) 96 (baseLength input)

def exponent (input : ByteArray) : Nat :=
  numeral (extended input) (96 + baseLength input) (exponentLength input)

/-- The number that the first 32 bytes of the exponent spell, or all of a shorter one. -/
def leadingExponent (input : ByteArray) : Nat :=
  numeral (extended input) (96 + baseLength input) (min (exponentLength input) 32)

def modulus (input : ByteArray) : Nat :=
  numeral (extended input) (96 + baseLength input + exponentLength input) (modulusLength input)

theorem toNat_lengths_base (input : ByteArray) : (lengths input).base.toNat = baseLength input :=
  Word.toNat_ofBytes_window input 0 (Nat.le_refl 32)

theorem toNat_lengths_exponent (input : ByteArray) :
    (lengths input).exponent.toNat = exponentLength input :=
  Word.toNat_ofBytes_window input 32 (Nat.le_refl 32)

theorem toNat_lengths_modulus (input : ByteArray) :
    (lengths input).modulus.toNat = modulusLength input :=
  Word.toNat_ofBytes_window input 64 (Nat.le_refl 32)

/-- What follows the lengths is the rest of the input, also where the input ends within them. -/
theorem extended_body (input : ByteArray) (i : Nat) :
    extended (body input) i = extended input (96 + i) := by
  have size : input.data.size = input.size := rfl
  rw [extended_eq, extended_eq, body, ByteArray.data_extract, Array.getElem?_extract, size]
  by_cases held : 96 + i < input.size
  · rw [if_pos (by omega)]
  · rw [if_neg (by omega), getElem?_neg input.data _ held]

theorem numeral_body (input : ByteArray) (offset length : Nat) :
    numeral (extended (body input)) offset length = numeral (extended input) (96 + offset) length :=
  numeral_congr fun i _ => by rw [extended_body, Nat.add_assoc]

theorem toNat_exponentHead (fits : baseLength input < UInt64.size) :
    (exponentHead (body input) (lengths input)).toNat = leadingExponent input := by
  rw [exponentHead, toNat_lengths_base, if_neg (Nat.not_le.mpr fits),
    Word.toNat_ofBytes_window _ _ (Nat.min_le_right _ _), numeral_body, toNat_lengths_exponent,
    leadingExponent]

/-- The number in the answer, at the width of the modulus. -/
def power (input : ByteArray) : Nat :=
  if modulus input = 0 then 0 else base input ^ exponent input % modulus input

theorem power_lt (input : ByteArray) : power input < 256 ^ modulusLength input := by
  have width : modulus input < 256 ^ modulusLength input := numeral_lt _ _ _
  rw [power]
  split
  · exact Nat.pow_pos (by decide)
  · next positive => exact Nat.lt_trans (Nat.mod_lt _ (Nat.pos_of_ne_zero positive)) width

/-- An answer is only given where the length of the base fits, and then it is the power. -/
theorem output?_eq_some (h : output? input = some out) :
    baseLength input < UInt64.size ∧ out = Bytes.ofNat (modulusLength input) (power input) := by
  have lengths_zero : (lengths input).base = 0 ∧ (lengths input).modulus = 0 ↔
      baseLength input = 0 ∧ modulusLength input = 0 := by
    rw [← toNat_lengths_base, ← toNat_lengths_modulus, BitVec.toNat_eq, BitVec.toNat_eq]
    rfl
  simp only [output?, lengths_zero, toNat_lengths_base, toNat_lengths_exponent,
    toNat_lengths_modulus, toNat_window, numeral_body] at h
  split at h
  -- Without a base and a modulus nothing is computed, and the answer has no bytes.
  · next nothing =>
      refine ⟨nothing.1 ▸ by decide, ?_⟩
      rw [← Option.some.inj h, nothing.2]
      rfl
  · split at h
    · cases h
    · next fit =>
        refine ⟨Nat.not_le.mp (not_or.mp fit).1, ?_⟩
        have spelled : numeral (extended input) (96 + (baseLength input + exponentLength input))
            (modulusLength input) = modulus input := by rw [modulus, Nat.add_assoc]
        rw [← Option.some.inj h, spelled, power]
        by_cases zero : modulus input = 0
        · rw [if_pos zero, if_pos zero]
        · rw [if_neg zero, if_neg zero, Modular.pow_eq (Nat.pos_of_ne_zero zero)]
          rfl

end ModExp

namespace Precompile

theorem run_eq_ok {p : Precompile} {input : ByteArray} {gasLimit : UInt64} {out : PrecompileOutput}
    (h : p.run input gasLimit = .ok out) :
    out.gasUsed = p.price input ∧ p.output? input = some out.output := by
  simp only [run, charge] at h
  split at h
  · cases h
  · simp only [bind, Except.bind] at h
    split at h
    · next output known =>
        obtain rfl := Except.ok.inj h
        exact ⟨rfl, known⟩
    · cases h

/-- Modular exponentiation, where it answers, computes with the numbers that its input spells when
it goes on with zeros: the price is that of the three lengths and the first bytes of the exponent,
and the answer spells the power at the width of the modulus, zero where the modulus is. -/
theorem modExp_computes_power {input : ByteArray} {gasLimit : UInt64} {out : PrecompileOutput}
    (ran : modExp.run input gasLimit = .ok out) :
    out.gasUsed = ModExp.gasCost (BitVec.ofNat 256 (ModExp.baseLength input))
        (BitVec.ofNat 256 (ModExp.exponentLength input))
        (BitVec.ofNat 256 (ModExp.modulusLength input))
        (BitVec.ofNat 256 (ModExp.leadingExponent input)) ∧
      out.output.size = ModExp.modulusLength input ∧
      numeral (extended out.output) 0 (ModExp.modulusLength input) =
        if ModExp.modulus input = 0 then 0
        else ModExp.base input ^ ModExp.exponent input % ModExp.modulus input := by
  obtain ⟨priced, answered⟩ := run_eq_ok ran
  obtain ⟨fits, spells⟩ := ModExp.output?_eq_some answered
  refine ⟨?_, ?_, ?_⟩
  · rw [priced, ← ModExp.toNat_lengths_base, ← ModExp.toNat_lengths_exponent,
      ← ModExp.toNat_lengths_modulus, ← ModExp.toNat_exponentHead fits]
    simp only [BitVec.ofNat_toNat, BitVec.setWidth_eq]
    rfl
  · rw [spells, size_ofNat]
  · rw [spells, numeral_ofNat, Nat.mod_eq_of_lt (ModExp.power_lt input), ModExp.power]

/-- The answer to 3^2 modulo 2^9, where the input ends after the first byte of the modulus. -/
theorem modExp_computes_power_cut_short :
    let length (n : Nat) := Bytes.ofNat 32 n
    let input := length 1 ++ length 1 ++ length 2 ++ ⟨#[3, 2, 2]⟩
    let out : PrecompileOutput := ⟨0, ⟨#[0, 9]⟩⟩
    modExp.run input 100 = .ok out ∧ ModExp.modulusLength input = 2 ∧
      ModExp.modulus input = 2 ^ 9 ∧ out.output.size = ModExp.modulusLength input ∧
      numeral (extended out.output) 0 (ModExp.modulusLength input) = 3 ^ 2 % 2 ^ 9 := by
  intro length input out
  have ran : modExp.run input 100 = .ok out := by decide +kernel
  have modulus : ModExp.modulus input = 2 ^ 9 := by decide +kernel
  have base : ModExp.base input = 3 := by decide +kernel
  have exponent : ModExp.exponent input = 2 := by decide +kernel
  obtain ⟨_, size, spells⟩ := modExp_computes_power ran
  rw [modulus, base, exponent, if_neg (by decide)] at spells
  exact ⟨ran, by decide +kernel, modulus, size, spells⟩

end Precompile
end EvmEngine
