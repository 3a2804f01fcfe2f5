import EvmEngine.Proofs.Bytes
import EvmEngine.Proofs.Rlp.Grammar
import EvmEngine.Rlp

/-!
The short forms that the program writes are those of the rules: its numbers have the bytes of the
rules, and its strings and lists with at most 55 bytes are spellings.
-/

namespace EvmEngine
namespace Rlp

theorem value_toList (b : ByteArray) : value b.data.toList = Bytes.toNat b :=
  Array.foldl_toList _

theorem value_ofNat {width n : Nat} (fits : n < 256 ^ width) :
    value (Bytes.ofNat width n).data.toList = n := by
  have spelled := Bytes.numeral_ofNat width n
  rw [value_toList, Bytes.toNat_eq_numeral, Bytes.size_ofNat, spelled, Nat.mod_eq_of_lt fits]

/-- The bytes of a number that fits tell which number it is. -/
theorem ofNat_inj {width m n : Nat} (fits : m < 256 ^ width) (fits' : n < 256 ^ width)
    (same : (Bytes.ofNat width m).data.toList = (Bytes.ofNat width n).data.toList) : m = n := by
  rw [← value_ofNat fits, same, value_ofNat fits']

theorem head?_ofNat (width n : Nat) :
    (Bytes.ofNat (width + 1) n).data.toList.head? = some (UInt8.ofNat (n / 256 ^ width)) := by
  have power : 2 ^ (8 * width) = 256 ^ width := Nat.pow_mul 2 8 width
  simp [Bytes.ofNat, List.ofFn_succ, Nat.shiftRight_eq_div_pow, power]

theorem significantBytes_eq_digits (n : Nat) : (significantBytes n).data.toList = digits n := by
  by_cases zero : n = 0
  · subst zero
    rfl
  · rw [significantBytes, if_neg zero]
    have power (k : Nat) : 2 ^ (8 * k) = 256 ^ k := Nat.pow_mul 2 8 k
    have below : n < 256 ^ (n.log2 / 8 + 1) := by
      rw [← power, ← Nat.log2_lt zero]
      omega
    have above : 256 ^ (n.log2 / 8) ≤ n := by
      rw [← power, ← Nat.le_log2 zero]
      omega
    have first : n / 256 ^ (n.log2 / 8) < 256 := by
      rw [Nat.pow_succ'] at below
      exact Nat.div_lt_of_lt_mul (by rwa [Nat.mul_comm])
    have leads : (Bytes.ofNat (n.log2 / 8 + 1) n).data.toList.head? ≠ some 0 := by
      rw [head?_ofNat]
      intro null
      have none := congrArg UInt8.toNat (Option.some.inj null)
      rw [UInt8.toNat_ofNat_of_lt' first, UInt8.toNat_zero] at none
      exact Nat.ne_of_gt (Nat.div_pos above (Nat.pow_pos (by decide))) none
    rw [← digits_value leads, value_ofNat below]

theorem isPlain_toList (b : ByteArray) :
    isPlain b.data.toList = true ↔ b.size = 1 ∧ b[0]?.any (· < 0x80) := by
  obtain ⟨⟨bytes⟩⟩ := b
  have size : (ByteArray.mk ⟨bytes⟩).size = bytes.length := rfl
  have first : (ByteArray.mk ⟨bytes⟩)[0]? = bytes[0]? := by
    show (Array.mk bytes)[0]? = bytes[0]?
    exact List.getElem?_toArray
  rw [size, first]
  match bytes with
  | [] => simp [isPlain]
  | [b] => simp [isPlain]
  | b :: c :: more => simp [isPlain]

theorem header_of_short (kind : UInt8) {length : Nat} (short : length ≤ 55) :
    header kind length = [kind + UInt8.ofNat length] := by
  rw [header, code, longLength, if_pos short, if_pos short]

theorem size_encodeString_le (b : ByteArray) : (encodeString b).size ≤ b.size + 1 := by
  rw [encodeString]
  split
  · exact Nat.le_succ _
  · rw [ByteArray.size_append, Nat.add_comm]
    exact Nat.le_refl _

theorem spells_encodeString {b : ByteArray} {items : List Item} {rest : List UInt8}
    (short : b.size ≤ 55) (more : Spells items rest) :
    Spells (.string b.data.toList :: items) ((encodeString b).data.toList ++ rest) := by
  have length : b.data.toList.length = b.size := Array.length_toList
  rw [encodeString]
  split
  · next plain =>
      obtain ⟨x, small, spelled⟩ := eq_singleton_of_isPlain ((isPlain_toList b).mpr plain)
      rw [spelled]
      exact .plain small more
  · next escaped =>
      have large := Bool.eq_false_iff.mpr fun plain => escaped ((isPlain_toList b).mp plain)
      have fits : b.data.toList.length < 2 ^ 64 := by omega
      have spelled := Spells.string large fits more
      rw [length, header_of_short _ short] at spelled
      simpa using spelled

theorem spells_encodeList {parts : List ByteArray} {items : List Item}
    (short : (parts.foldl (· ++ ·) ByteArray.empty).size ≤ 55)
    (spelled : Spells items (parts.foldl (· ++ ·) ByteArray.empty).data.toList) :
    Spells [.list items] (encodeList parts).data.toList := by
  rw [encodeList]
  generalize parts.foldl (· ++ ·) ByteArray.empty = payload at *
  have length : payload.data.toList.length = payload.size := Array.length_toList
  have listed := Spells.list spelled (by omega) .nil
  rw [length, header_of_short _ short] at listed
  simpa using listed

end Rlp
end EvmEngine
