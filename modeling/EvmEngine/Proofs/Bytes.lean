import EvmEngine.Bytes
import Mathlib.Algebra.BigOperators.Group.Finset.Basic
import Mathlib.Algebra.BigOperators.Ring.Finset
import Mathlib.Tactic.Ring

/-!
Byte strings without an end: past its last byte a string goes on with zeros. A window of it is a
span of these bytes, and a big-endian number is the sum of its digits to the base 256.
-/

namespace EvmEngine
namespace Bytes

/-- The bytes of a string that goes on with zeros for ever. -/
def extended (b : ByteArray) (i : Nat) : UInt8 :=
  b[i]?.getD 0

/-- The number that a span of bytes spells, the most significant byte first. -/
def numeral (byte : Nat → UInt8) (offset length : Nat) : Nat :=
  ∑ i ∈ Finset.range length, (byte (offset + i)).toNat * 256 ^ (length - 1 - i)

theorem extended_eq (b : ByteArray) (i : Nat) : extended b i = b.data[i]?.getD 0 := rfl

theorem extended_of_le {b : ByteArray} {i : Nat} (past : b.size ≤ i) : extended b i = 0 := by
  rw [extended, getElem?_neg b i (Nat.not_lt.mpr past), Option.getD_none]

theorem extended_append_left (a b : ByteArray) {i : Nat} (inside : i < a.size) :
    extended (a ++ b) i = extended a i := by
  rw [extended_eq, extended_eq, ByteArray.data_append, Array.getElem?_append_left inside]

theorem extended_append_right (a b : ByteArray) (i : Nat) :
    extended (a ++ b) (a.size + i) = extended b i := by
  have past : a.data.size ≤ a.size + i := Nat.le_add_right _ _
  have left : a.size + i - a.data.size = i := Nat.add_sub_cancel_left _ _
  rw [extended_eq, extended_eq, ByteArray.data_append, Array.getElem?_append_right past, left]

@[simp] theorem size_zeros (n : Nat) : (zeros n).size = n :=
  Array.size_replicate

@[simp] theorem size_window (b : ByteArray) (offset length : Nat) :
    (window b offset length).size = length := by
  simp only [window]
  split
  · exact size_zeros length
  · rw [ByteArray.size_append, ByteArray.size_extract, size_zeros]
    omega

/-- A window shows the bytes of the string in their places. -/
theorem extended_window (b : ByteArray) {offset length i : Nat} (inside : i < length) :
    extended (window b offset length) i = extended b (offset + i) := by
  simp only [window]
  split
  · next past =>
      have none : extended b (offset + i) = 0 := extended_of_le (by omega)
      rw [none, extended_eq]
      simp [zeros, inside]
  · next within =>
      have size : b.data.size = b.size := rfl
      simp only [extended_eq, ByteArray.data_append, ByteArray.data_extract, zeros,
        Array.getElem?_append, Array.getElem?_extract, Array.getElem?_replicate,
        Array.size_extract, size]
      by_cases held : offset + i < b.size
      · rw [if_pos (by omega), if_pos (by omega)]
      · rw [if_neg (by omega), if_pos (by omega), getElem?_neg b.data _ held]
        rfl

theorem numeral_succ (byte : Nat → UInt8) (offset length : Nat) :
    numeral byte offset (length + 1) =
      numeral byte offset length * 256 + (byte (offset + length)).toNat := by
  rw [numeral, Finset.sum_range_succ, numeral, Finset.sum_mul]
  congr 1
  · refine Finset.sum_congr rfl fun i member => ?_
    have below := Finset.mem_range.mp member
    rw [Nat.mul_assoc, ← Nat.pow_succ]
    congr 2
    omega
  · simp

theorem numeral_congr {byte byte' : Nat → UInt8} {offset offset' length : Nat}
    (same : ∀ i < length, byte (offset + i) = byte' (offset' + i)) :
    numeral byte offset length = numeral byte' offset' length :=
  Finset.sum_congr rfl fun i member => by rw [same i (Finset.mem_range.mp member)]

theorem numeral_lt (byte : Nat → UInt8) (offset length : Nat) :
    numeral byte offset length < 256 ^ length := by
  induction length with
  | zero => exact Nat.one_pos
  | succ n ih =>
      have digit := (byte (offset + n)).toNat_lt
      rw [numeral_succ, Nat.pow_succ]
      omega

/-- The number a string spells is the numeral of all its bytes. -/
theorem toNat_eq_numeral (b : ByteArray) : toNat b = numeral (extended b) 0 b.size := by
  have digits (k : Nat) (few : k ≤ b.size) :
      (b.data.toList.take k).foldl (fun n x => n * 256 + x.toNat) 0 = numeral (extended b) 0 k := by
    induction k with
    | zero => rfl
    | succ k ih =>
        have held : k < b.data.toList.length := few
        have digit : extended b (0 + k) = b.data.toList[k] := by
          rw [Nat.zero_add, extended_eq, getElem?_pos b.data k held]
          rfl
        rw [List.take_add_one, List.getElem?_eq_getElem held, Option.toList_some, List.foldl_append,
          ih (Nat.le_of_lt few), numeral_succ, digit]
        rfl
  rw [toNat, ← Array.foldl_toList, ← digits b.size (Nat.le_refl _), List.take_of_length_le]
  exact Nat.le_refl _

theorem toNat_window (b : ByteArray) (offset length : Nat) :
    toNat (window b offset length) = numeral (extended b) offset length := by
  rw [toNat_eq_numeral, size_window]
  exact numeral_congr fun i inside => by rw [Nat.zero_add, extended_window b inside]

@[simp] theorem size_ofNat (width n : Nat) : (ofNat width n).size = width :=
  Array.size_ofFn

theorem extended_ofNat {width i : Nat} (n : Nat) (inside : i < width) :
    (extended (ofNat width n) i).toNat = n / 256 ^ (width - 1 - i) % 256 := by
  have power : 256 ^ (width - 1 - i) = 2 ^ (8 * (width - 1 - i)) := Nat.pow_mul 2 8 _ |>.symm
  rw [extended_eq, ofNat, Array.getElem?_ofFn, dif_pos inside, Option.getD_some, UInt8.toNat_ofNat',
    Nat.shiftRight_eq_div_pow, power]

/-- The bytes of a number spell it, as far as it fits. -/
theorem numeral_ofNat (width n : Nat) :
    numeral (extended (ofNat width n)) 0 width = n % 256 ^ width := by
  have digits (k : Nat) (few : k ≤ width) :
      numeral (extended (ofNat width n)) 0 k = n / 256 ^ (width - k) % 256 ^ k := by
    induction k with
    | zero => simp [numeral, Nat.mod_one]
    | succ k ih =>
        have next : width - k = width - 1 - k + 1 := by omega
        have last : width - (k + 1) = width - 1 - k := by omega
        rw [numeral_succ, ih (by omega), Nat.zero_add, extended_ofNat n (by omega), next, last,
          Nat.pow_succ, ← Nat.div_div_eq_div_mul, Nat.pow_succ', Nat.mod_mul]
        ring
  simpa using digits width (Nat.le_refl _)

end Bytes

open Bytes

namespace Word

@[simp] theorem size_toBytes (w : Word) : w.toBytes.size = 32 :=
  size_ofNat 32 w.toNat

/-- A window of no more than 32 bytes, read as a word, is the number it spells. -/
theorem toNat_ofBytes_window (b : ByteArray) (offset : Nat) {length : Nat}
    (short : length ≤ 32) :
    (Word.ofBytes (window b offset length)).toNat = numeral (extended b) offset length := by
  have fits : numeral (extended b) offset length < 2 ^ 256 :=
    Nat.lt_of_lt_of_le (numeral_lt _ _ _) (Nat.pow_le_pow_right (by decide : 0 < 256) short)
  rw [Word.ofBytes, toNat_window, BitVec.toNat_ofNat, Nat.mod_eq_of_lt fits]

/-- The bytes of words, one word after the other. -/
def concat (words : List Word) : ByteArray :=
  words.foldr (fun w rest => w.toBytes ++ rest) ByteArray.empty

theorem concat_cons (w : Word) (words : List Word) :
    concat (w :: words) = w.toBytes ++ concat words := rfl

/-- Words are read back from where they were put. -/
theorem ofBytes_window_concat (words : List Word) {i : Nat} (inside : i < words.length) :
    ofBytes (window (concat words) (32 * i) 32) = words[i] := by
  apply BitVec.eq_of_toNat_eq
  rw [toNat_ofBytes_window _ _ (Nat.le_refl 32)]
  induction words generalizing i with
  | nil => exact absurd inside (Nat.not_lt_zero i)
  | cons w words ih =>
      rw [concat_cons]
      cases i with
      | zero =>
          have read : numeral (extended (w.toBytes ++ concat words)) (32 * 0) 32 =
              numeral (extended w.toBytes) 0 32 :=
            numeral_congr fun i below => by
              rw [Nat.mul_zero, Nat.zero_add, extended_append_left _ _ (by rwa [size_toBytes])]
          rw [read, toBytes, numeral_ofNat]
          exact Nat.mod_eq_of_lt w.isLt
      | succ i =>
          rw [List.getElem_cons_succ, ← ih (Nat.lt_of_succ_lt_succ inside)]
          refine numeral_congr fun j _ => ?_
          have place : 32 * (i + 1) + j = w.toBytes.size + (32 * i + j) := by
            rw [size_toBytes]
            omega
          rw [place, extended_append_right]

/-- The clamped number is the exact one, up to the largest machine integer. -/
theorem toNat_clamp (w : Word) : w.clamp.toNat = min w.toNat (UInt64.size - 1) := by
  simp only [clamp, toUInt64?]
  by_cases fits : w.toNat < UInt64.size
  · rw [if_pos fits, Option.getD_some, UInt64.toNat_ofNat_of_lt' fits,
      Nat.min_eq_left (Nat.le_sub_one_of_lt fits)]
  · have beyond : UInt64.size - 1 ≤ w.toNat := by omega
    rw [if_neg fits, Option.getD_none, UInt64.toNat_ofNat_of_lt' (by decide),
      Nat.min_eq_right beyond]

/-- Where clamping changes an offset, the string ends before both. -/
theorem extended_clamp {b : ByteArray} (counted : b.size < UInt64.size) (offset : Word) (i : Nat) :
    extended b (offset.clamp.toNat + i) = extended b (offset.toNat + i) := by
  rw [toNat_clamp]
  by_cases fits : offset.toNat < UInt64.size
  · rw [Nat.min_eq_left (Nat.le_sub_one_of_lt fits)]
  · rw [extended_of_le (by omega), extended_of_le (by omega)]

end Word
end EvmEngine
