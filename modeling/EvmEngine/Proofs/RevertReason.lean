import EvmEngine.Proofs.Bytes
import EvmEngine.RevertReason

/-!
Which data give a reason: the selector, a word of any kind, the length of the text, the text in
UTF-8 and whatever follows, and no others. The reader never looks past the end of the data, however
long a text they promise. That a length is cut down to a machine integer before it is used makes no
difference to data that a machine can hold.
-/

namespace EvmEngine

namespace Bytes

theorem toNat_ofNat (width n : Nat) : toNat (ofNat width n) = n % 256 ^ width := by
  rw [toNat_eq_numeral, size_ofNat, numeral_ofNat]

theorem toNat_lt (b : ByteArray) : toNat b < 256 ^ b.size := by
  rw [toNat_eq_numeral]
  exact numeral_lt _ _ _

/-- A piece is found between what comes before it and what comes after. -/
theorem extract_between {before piece after : ByteArray} {first last : Nat}
    (starts : first = before.size) (ends : last = before.size + piece.size) :
    (before ++ piece ++ after).extract first last = piece := by
  have shifted := ByteArray.extract_append_size_add (a := before) (b := piece ++ after) (i := 0)
    (j := piece.size)
  rw [starts, ends, ByteArray.append_assoc]
  exact shifted.trans (ByteArray.extract_append_eq_left rfl)

end Bytes

namespace RevertReason

open Bytes

theorem fromUTF8?_eq_some {b : ByteArray} {text : String} :
    String.fromUTF8? b = some text ↔ b = text.toUTF8 := by
  simp only [String.fromUTF8?]
  constructor
  · intro read
    split at read
    · cases read
      rfl
    · cases read
  · rintro rfl
    exact dif_pos text.isValidUTF8

/-- Data that give a text as the reason: the selector, a word of any kind, the length of the text as
a word, the text, and anything after it. -/
def Gives (data : ByteArray) (text : String) : Prop :=
  ∃ skipped length rest : ByteArray, skipped.size = 32 ∧ length.size = 32 ∧
    toNat length = text.utf8ByteSize ∧ data = selector ++ skipped ++ length ++ text.toUTF8 ++ rest

/-- The data that a contract gives for a text: the word before the length tells where the text
begins, and zeros follow it up to a whole word. -/
def encode (text : String) : ByteArray :=
  selector ++ ofNat 32 32 ++ ofNat 32 text.utf8ByteSize ++ text.toUTF8 ++
    zeros ((text.utf8ByteSize + 31) / 32 * 32 - text.utf8ByteSize)

theorem gives_of_decode? {data : ByteArray} {text : String} (read : decode? data = some text) :
    Gives data text := by
  simp only [decode?] at read
  split at read
  · cases read
  · next known =>
      obtain ⟨long, selected⟩ := not_or.mp known
      have selected : selector = data.extract 0 4 := (not_not.mp selected).symm
      split at read
      · cases read
      · next fits =>
          have spelled := fromUTF8?_eq_some.mp read
          have size := congrArg ByteArray.size spelled
          rw [ByteArray.size_extract, String.toUTF8_eq_toByteArray, String.size_toByteArray] at size
          refine ⟨data.extract 4 36, data.extract 36 68,
            data.extract (68 + toNat (data.extract 36 68)) data.size, ?_, ?_, by omega, ?_⟩
          · rw [ByteArray.size_extract]
            omega
          · rw [ByteArray.size_extract]
            omega
          · rw [← spelled, selected]
            simp [ByteArray.extract_append_extract]

theorem decode?_of_gives {data : ByteArray} {text : String} (gives : Gives data text) :
    decode? data = some text := by
  obtain ⟨skipped, length, rest, wide, word, counts, rfl⟩ := gives
  have four : selector.size = 4 := rfl
  have bytes : text.toUTF8.size = text.utf8ByteSize := rfl
  have start : (selector ++ skipped ++ length ++ text.toUTF8 ++ rest).extract 0 4 = selector := by
    simp only [ByteArray.append_assoc]
    exact ByteArray.extract_append_eq_left four.symm
  have promised :
      (selector ++ skipped ++ length ++ text.toUTF8 ++ rest).extract 36 68 = length := by
    rw [ByteArray.append_assoc]
    apply extract_between <;> simp only [ByteArray.size_append] <;> omega
  have spelled : (selector ++ skipped ++ length ++ text.toUTF8 ++ rest).extract 68
      (68 + text.utf8ByteSize) = text.toUTF8 := by
    apply extract_between <;> simp only [ByteArray.size_append] <;> omega
  rw [decode?, if_neg, promised, counts, if_neg, spelled]
  · exact fromUTF8?_eq_some.mpr rfl
  · simp only [ByteArray.size_append]
    omega
  · rintro (short | other)
    · simp only [ByteArray.size_append] at short
      omega
    · exact other start

/-- The reader gives the texts that the data give, and no others. -/
theorem decode?_eq_some {data : ByteArray} {text : String} :
    decode? data = some text ↔ Gives data text :=
  ⟨gives_of_decode?, decode?_of_gives⟩

theorem gives_encode {text : String} (countable : text.utf8ByteSize < 256 ^ 32) :
    Gives (encode text) text := by
  refine ⟨_, _, _, size_ofNat 32 32, size_ofNat 32 _, ?_, rfl⟩
  rw [toNat_ofNat, Nat.mod_eq_of_lt countable]

theorem slice_of_le {data : ByteArray} {first last : Nat} (ordered : first ≤ last)
    (inside : last ≤ data.size) : slice data first last = .ok (data.extract first last) :=
  if_pos ⟨ordered, inside⟩

/-- A sum that starts again at zero ends before the text begins. -/
theorem stopOf_cases {length : Nat} (counted : length < UInt64.size) :
    (68 + length < UInt64.size ∧ (stopOf length).toNat = 68 + length) ∨
      (UInt64.size ≤ 68 + length ∧ stopOf length < 68) := by
  have sum : (stopOf length).toNat = (68 + length) % UInt64.size := by
    rw [stopOf, UInt64.toNat_add, UInt64.toNat_ofNat_of_lt' counted]
    rfl
  obtain fits | wraps := Nat.lt_or_ge (68 + length) UInt64.size
  · exact .inl ⟨fits, by rw [sum, Nat.mod_eq_of_lt fits]⟩
  · have large : 68 < UInt64.size := by decide
    refine .inr ⟨wraps, UInt64.lt_iff_toNat_lt.mpr ?_⟩
    rw [sum, Nat.mod_eq_sub_mod wraps, Nat.mod_eq_of_lt (by omega)]
    change _ < 68
    omega

theorem textNarrow_ok (data : ByteArray) (length : Nat) :
    ∃ reason, textNarrow data length = .ok reason ∧
      (data.size < UInt64.size → reason =
        if data.size < 68 + length then none
        else String.fromUTF8? (data.extract 68 (68 + length))) := by
  simp only [textNarrow]
  by_cases far : data.size < length
  · exact ⟨none, if_pos far, fun _ => (if_pos (by omega)).symm⟩
  rw [if_neg far]
  by_cases outside : stopOf length < 68 ∨ data.size < (stopOf length).toNat
  · refine ⟨none, if_pos outside, fun counted => (if_pos ?_).symm⟩
    obtain ⟨-, exact⟩ | ⟨wraps, -⟩ :=
      stopOf_cases (Nat.lt_of_le_of_lt (Nat.le_of_not_lt far) counted)
    · obtain early | late := outside
      · rw [UInt64.lt_iff_toNat_lt, exact] at early
        exact absurd early (Nat.not_lt.mpr (Nat.le_add_right 68 length))
      · rwa [exact] at late
    · exact Nat.lt_of_lt_of_le counted wraps
  · obtain ⟨starts, ends⟩ := not_or.mp outside
    have starts : 68 ≤ (stopOf length).toNat := UInt64.le_iff_toNat_le.mp (UInt64.not_lt.mp starts)
    have ends := Nat.le_of_not_lt ends
    refine ⟨String.fromUTF8? (data.extract 68 (stopOf length).toNat), ?_, fun counted => ?_⟩
    · rw [if_neg outside, slice_of_le starts ends]
      rfl
    · obtain ⟨-, exact⟩ | ⟨-, early⟩ :=
        stopOf_cases (Nat.lt_of_le_of_lt (Nat.le_of_not_lt far) counted)
      · rw [exact] at ends ⊢
        exact (if_neg (Nat.not_lt.mpr ends)).symm
      · exact absurd early (not_or.mp outside).1

/-- No data make the reader look past their end, and those that a machine can hold it reads as they
are. -/
theorem decodeNarrow_ok (data : ByteArray) :
    ∃ reason, decodeNarrow data = .ok reason ∧
      (data.size < UInt64.size → reason = decode? data) := by
  have word : (Word.ofBytes (data.extract 36 68)).toNat = toNat (data.extract 36 68) := by
    refine Nat.mod_eq_of_lt (Nat.lt_of_lt_of_le (toNat_lt _) ?_)
    have short : (data.extract 36 68).size ≤ 32 := by
      rw [ByteArray.size_extract]
      omega
    exact Nat.pow_le_pow_right (by decide) short
  simp only [decodeNarrow, decode?]
  by_cases short : data.size < 68
  · exact ⟨none, if_pos short, fun _ => (if_pos (.inl short)).symm⟩
  rw [if_neg short, slice_of_le (Nat.zero_le 4) (by omega), slice_of_le (by decide) (by omega)]
  by_cases other : data.extract 0 4 ≠ selector
  · exact ⟨none, if_pos other, fun _ => (if_pos (.inr other)).symm⟩
  rw [if_neg (not_or.mpr ⟨short, other⟩), ← word]
  obtain ⟨reason, read, same⟩ := textNarrow_ok data (Word.ofBytes (data.extract 36 68)).toNat
  refine ⟨reason, ?_, same⟩
  simp only [bind, Except.bind, if_neg other, read]

end RevertReason

namespace CallResult

/-- Read with machine integers, a call gives the same reason, if its data fit a machine. -/
theorem revertReasonNarrow_ok (r : CallResult) :
    ∃ reason, r.revertReasonNarrow = .ok reason ∧
      (r.returnData.size < UInt64.size → reason = r.revertReason?) := by
  simp only [revertReasonNarrow, revertReason?]
  cases r.success with
  | true => exact ⟨none, rfl, fun _ => rfl⟩
  | false => exact RevertReason.decodeNarrow_ok r.returnData

/-- A call gives a text as its reason if it failed and its data give that text, and only then. So
does every text that is encoded, as far as its length fits a word. Read with machine integers the
data are read the same, and never past their end. -/
theorem revertReason_spelled :
    (∀ (r : CallResult) (text : String),
      r.revertReason? = some text ↔
        r.success = false ∧ RevertReason.Gives r.returnData text) ∧
    (∀ text : String, text.utf8ByteSize < 256 ^ 32 →
      RevertReason.decode? (RevertReason.encode text) = some text) ∧
    ∀ data : ByteArray, ∃ reason, RevertReason.decodeNarrow data = .ok reason ∧
      (data.size < UInt64.size → reason = RevertReason.decode? data) := by
  refine ⟨fun r text => ?_, fun text countable => ?_, RevertReason.decodeNarrow_ok⟩
  · simp only [revertReason?]
    cases r.success with
    | true => simp
    | false => simpa using RevertReason.decode?_eq_some
  · exact RevertReason.decode?_of_gives (RevertReason.gives_encode countable)

/-- A call that was reverted for a reason with a letter of two bytes, and data that promise more
text than there can be. -/
theorem revertReason_spelled_not_owner :
    let text := "kein Eigentümer"
    let r : CallResult :=
      { refusal 100 with verdict := .reverted, returnData := RevertReason.encode text }
    let promises :=
      RevertReason.selector ++ Bytes.zeros 32 ++ ⟨Array.replicate 32 0xff⟩ ++ Bytes.zeros 40
    text.utf8ByteSize < 256 ^ 32 ∧ promises.size < UInt64.size ∧
      r.revertReason? = some text ∧ RevertReason.decode? (RevertReason.encode text) = some text ∧
      RevertReason.decodeNarrow promises = .ok none := by
  intro text r promises
  obtain ⟨spelled, back, inside⟩ := revertReason_spelled
  have countable : text.utf8ByteSize < 256 ^ 32 := by decide
  have held : promises.size < UInt64.size := by decide
  have gives : RevertReason.Gives r.returnData text := RevertReason.gives_encode countable
  obtain ⟨reason, read, same⟩ := inside promises
  have none : RevertReason.decode? promises = none := by decide +kernel
  rw [same held, none] at read
  exact ⟨countable, held, (spelled r text).mpr ⟨rfl, gives⟩, back text countable, read⟩

end CallResult
end EvmEngine
