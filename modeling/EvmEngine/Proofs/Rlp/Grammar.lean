import Mathlib.Data.Nat.Digits.Lemmas

/-!
The rules of the encoding, stated apart from the program: what a sequence of items is spelled as,
with strings and lists of any length. A reader that follows the rules accepts exactly what they
spell, so that every sequence has one spelling and every spelling is of one sequence.
-/

namespace EvmEngine
namespace Rlp

/-- A byte string or a list of items. -/
inductive Item
  | string (bytes : List UInt8)
  | list (items : List Item)

/-- The number that a string of bytes spells, the most significant byte first. -/
def value (bytes : List UInt8) : Nat :=
  bytes.foldl (fun n b => n * 256 + b.toNat) 0

/-- The bytes of a number, the most significant first and no zero before it. -/
def digits (n : Nat) : List UInt8 :=
  ((Nat.digits 256 n).map UInt8.ofNat).reverse

theorem value_eq_ofDigits (bytes : List UInt8) :
    value bytes = Nat.ofDigits 256 (bytes.reverse.map UInt8.toNat) := by
  rw [value, Nat.ofDigits_eq_foldr, List.foldr_map, List.foldr_reverse]
  simp only [Nat.cast_id, Nat.add_comm, Nat.mul_comm]

theorem value_digits (n : Nat) : value (digits n) = n := by
  have kept : (Nat.digits 256 n).map (UInt8.toNat ∘ UInt8.ofNat) = Nat.digits 256 n := by
    refine (List.map_congr_left fun d member => ?_).trans (List.map_id _)
    exact UInt8.toNat_ofNat_of_lt' (Nat.digits_lt_base (by decide) member)
  rw [value_eq_ofDigits, digits, List.reverse_reverse, List.map_map, kept, Nat.ofDigits_digits]

theorem digits_value {bytes : List UInt8} (leads : bytes.head? ≠ some 0) :
    digits (value bytes) = bytes := by
  have last : ∀ nonempty : bytes.reverse.map UInt8.toNat ≠ [],
      (bytes.reverse.map UInt8.toNat).getLast nonempty ≠ 0 := by
    intro nonempty zero
    rw [List.getLast_map, List.getLast_reverse] at zero
    have first : bytes.head _ = 0 := UInt8.toNat_inj.mp zero
    exact leads (List.head?_eq_some_head _ ▸ congrArg some first)
  have read : Nat.digits 256 (value bytes) = bytes.reverse.map UInt8.toNat := by
    rw [value_eq_ofDigits]
    refine Nat.digits_ofDigits 256 (by decide) _ (fun d member => ?_) last
    obtain ⟨b, -, rfl⟩ := List.mem_map.mp member
    exact b.toNat_lt
  have kept : (UInt8.ofNat ∘ UInt8.toNat : UInt8 → UInt8) = id := funext fun b => UInt8.ofNat_toNat
  rw [digits, read, List.map_map, kept, List.map_id, List.reverse_reverse]

theorem head?_digits (n : Nat) : (digits n).head? ≠ some 0 := by
  rw [digits, List.head?_reverse, List.getLast?_map]
  intro zero
  obtain ⟨d, last, null⟩ := Option.map_eq_some_iff.mp zero
  obtain ⟨nonempty, rfl⟩ := List.mem_getLast?_eq_getLast last
  have below : (Nat.digits 256 n).getLast nonempty < 256 :=
    Nat.digits_lt_base (by decide) (List.getLast_mem nonempty)
  have positive : n ≠ 0 := fun none => nonempty (by rw [none, Nat.digits_zero])
  have zero : (Nat.digits 256 n).getLast nonempty = 0 := by
    rw [← UInt8.toNat_ofNat_of_lt' below, null]
    rfl
  exact Nat.getLast_digit_ne_zero 256 positive zero

theorem length_digits_le_iff (n k : Nat) : (digits n).length ≤ k ↔ n < 256 ^ k := by
  rw [digits, List.length_reverse, List.length_map, Nat.digits_length_le_iff (by decide)]

/-- How far the first byte of a header lies above the least one of its kind. -/
def code (length : Nat) : Nat :=
  if length ≤ 55 then length else 55 + (digits length).length

theorem code_lt_iff (length : Nat) : code length < 64 ↔ length < 2 ^ 64 := by
  have few := length_digits_le_iff length 8
  rw [code]
  split <;> omega

/-- The bytes of a length that is too large for the first byte. -/
def longLength (length : Nat) : List UInt8 :=
  if length ≤ 55 then [] else digits length

def header (kind : UInt8) (length : Nat) : List UInt8 :=
  (kind + UInt8.ofNat (code length)) :: longLength length

/-- A single byte that stands for itself. -/
def isPlain : List UInt8 → Bool
  | [b] => b < 0x80
  | _ => false

theorem eq_singleton_of_isPlain {bytes : List UInt8} (plain : isPlain bytes = true) :
    ∃ b < 0x80, bytes = [b] := by
  match bytes, plain with
  | [b], small => exact ⟨b, of_decide_eq_true small, rfl⟩

/-- What a sequence of items is spelled as. -/
inductive Spells : List Item → List UInt8 → Prop
  | nil : Spells [] []
  | plain {b : UInt8} {items rest} (small : b < 0x80) (more : Spells items rest) :
      Spells (.string [b] :: items) (b :: rest)
  | string {bytes items rest} (large : isPlain bytes = false) (fits : bytes.length < 2 ^ 64)
      (more : Spells items rest) :
      Spells (.string bytes :: items) (header 0x80 bytes.length ++ (bytes ++ rest))
  | list {inner payload items rest} (holds : Spells inner payload)
      (fits : payload.length < 2 ^ 64) (more : Spells items rest) :
      Spells (.list inner :: items) (header 0xc0 payload.length ++ (payload ++ rest))

/-- The first `n` bytes apart from the others, where there are as many. -/
def cut? (n : Nat) (bytes : List UInt8) : Option (List UInt8 × List UInt8) :=
  if n ≤ bytes.length then some (bytes.take n, bytes.drop n) else none

theorem cut?_eq_some_iff {n : Nat} {bytes front rest : List UInt8} :
    cut? n bytes = some (front, rest) ↔ front.length = n ∧ bytes = front ++ rest := by
  rw [cut?]
  constructor
  · intro cut
    split at cut
    · next enough =>
        obtain ⟨rfl, rfl⟩ := Prod.mk.inj (Option.some.inj cut)
        exact ⟨List.length_take_of_le enough, (List.take_append_drop n bytes).symm⟩
    · cases cut
  · rintro ⟨rfl, rfl⟩
    simp

/-- The payload that a header announces, of which the first byte is read, and what follows it. -/
def payload? (announced : Nat) (bytes : List UInt8) : Option (List UInt8 × List UInt8) :=
  if announced ≤ 55 then cut? announced bytes
  else
    (cut? (announced - 55) bytes).bind fun (length, bytes) =>
      if length.head? ≠ some 0 ∧ 55 < value length then cut? (value length) bytes else none

theorem payload?_eq_some_iff {announced : Nat} {bytes payload rest : List UInt8} :
    payload? announced bytes = some (payload, rest) ↔
      announced = code payload.length ∧
        bytes = longLength payload.length ++ (payload ++ rest) := by
  rw [payload?]
  constructor
  · intro read
    split at read
    · next short =>
        obtain ⟨rfl, rfl⟩ := cut?_eq_some_iff.mp read
        simp [code, longLength, short]
    · next long =>
        obtain ⟨⟨length, tail⟩, first, second⟩ := Option.bind_eq_some_iff.mp read
        obtain ⟨counted, rfl⟩ := cut?_eq_some_iff.mp first
        simp only at second
        split at second
        · next canonical =>
            obtain ⟨size, rfl⟩ := cut?_eq_some_iff.mp second
            have above : ¬ payload.length ≤ 55 := by omega
            rw [code, longLength, if_neg above, if_neg above, size, digits_value canonical.1]
            exact ⟨by omega, rfl⟩
        · cases second
  · rintro ⟨rfl, rfl⟩
    rw [code, longLength]
    by_cases short : payload.length ≤ 55
    · simp only [if_pos short]
      exact cut?_eq_some_iff.mpr ⟨rfl, rfl⟩
    · have some_digits : ¬ (digits payload.length).length ≤ 0 := by
        rw [length_digits_le_iff]
        omega
      simp only [if_neg short]
      rw [if_neg (by omega), Nat.add_sub_cancel_left, cut?_eq_some_iff.mpr ⟨rfl, rfl⟩,
        Option.bind_some, value_digits, if_pos ⟨head?_digits _, by omega⟩]
      exact cut?_eq_some_iff.mpr ⟨rfl, rfl⟩

theorem length_of_payload? {announced : Nat} {bytes payload rest : List UInt8}
    (h : payload? announced bytes = some (payload, rest)) :
    payload.length ≤ bytes.length ∧ rest.length ≤ bytes.length := by
  rw [(payload?_eq_some_iff.mp h).2, List.length_append, List.length_append]
  omega

/-- Reads items up to the end of a string. -/
def items? : List UInt8 → Option (List Item)
  | [] => some []
  | b :: bytes =>
      if b < 0x80 then (items? bytes).map (.string [b] :: ·)
      else if b < 0xc0 then
        match _read : payload? (b - 0x80).toNat bytes with
        | none => none
        | some (payload, rest) =>
            if isPlain payload then none else (items? rest).map (.string payload :: ·)
      else
        match _read : payload? (b - 0xc0).toNat bytes with
        | none => none
        | some (payload, rest) =>
            (items? payload).bind fun inner => (items? rest).map (.list inner :: ·)
termination_by bytes => bytes.length
decreasing_by
  · exact Nat.lt_succ_self _
  all_goals
    have shorter := length_of_payload? ‹_›
    rw [List.length_cons]
    omega

theorem toNat_header (kind : UInt8) (room : kind.toNat ≤ 192) {length : Nat}
    (fits : length < 2 ^ 64) :
    (kind + UInt8.ofNat (code length)).toNat = kind.toNat + code length := by
  have small := (code_lt_iff length).mpr fits
  rw [UInt8.toNat_add, UInt8.toNat_ofNat_of_lt' (Nat.lt_trans small (by decide))]
  exact Nat.mod_eq_of_lt (by omega)

theorem announced_of_header (kind : UInt8) {length : Nat} (fits : length < 2 ^ 64) :
    (kind + UInt8.ofNat (code length) - kind).toNat = code length := by
  have small := (code_lt_iff length).mpr fits
  rw [UInt8.add_comm, UInt8.add_sub_cancel,
    UInt8.toNat_ofNat_of_lt' (Nat.lt_trans small (by decide))]

theorem header_of_announced {kind b : UInt8} (length : Nat)
    (named : (b - kind).toNat = code length) : header kind length = b :: longLength length := by
  rw [header, ← named, UInt8.ofNat_toNat, UInt8.add_comm, UInt8.sub_add_cancel]

/-- A first byte of either kind leaves room for 64 codes, which is enough for all lengths below 2^64. -/
theorem fits_of_announced {kind b : UInt8} {length : Nat} (least : kind ≤ b)
    (most : b.toNat < kind.toNat + 64) (named : (b - kind).toNat = code length) :
    length < 2 ^ 64 := by
  rw [← code_lt_iff, ← named, UInt8.toNat_sub_of_le _ _ least]
  omega

theorem items?_string {b : UInt8} {bytes payload rest : List UInt8} (large : ¬ b < 0x80)
    (string : b < 0xc0) (read : payload? (b - 0x80).toNat bytes = some (payload, rest))
    (escaped : isPlain payload = false) :
    items? (b :: bytes) = (items? rest).map (.string payload :: ·) := by
  rw [items?, if_neg large, if_pos string]
  split <;> simp_all

theorem items?_list {b : UInt8} {bytes payload rest : List UInt8} (large : ¬ b < 0x80)
    (list : ¬ b < 0xc0) (read : payload? (b - 0xc0).toNat bytes = some (payload, rest)) :
    items? (b :: bytes) =
      (items? payload).bind fun inner => (items? rest).map (.list inner :: ·) := by
  rw [items?, if_neg large, if_neg list]
  split <;> simp_all

theorem spells_of_items? {bytes : List UInt8} {items : List Item} (read : items? bytes = some items) :
    Spells items bytes := by
  fun_induction items? bytes generalizing items with
  | case1 =>
      obtain rfl := Option.some.inj read
      exact .nil
  | case2 b bytes small ih =>
      obtain ⟨items, more, rfl⟩ := Option.map_eq_some_iff.mp read
      exact .plain small (ih more)
  | case3 | case4 | case6 => cases read
  | case5 b bytes large kind payload rest announced plain ih =>
      obtain ⟨items, more, rfl⟩ := Option.map_eq_some_iff.mp read
      obtain ⟨named, rfl⟩ := payload?_eq_some_iff.mp announced
      have fits : payload.length < 2 ^ 64 :=
        fits_of_announced (UInt8.not_lt.mp large) (UInt8.lt_iff_toNat_lt.mp kind) named
      have spelled := Spells.string (Bool.eq_false_iff.mpr plain) fits (ih more)
      rwa [header_of_announced _ named] at spelled
  | case7 b bytes large kind payload rest announced ih₁ ih₂ =>
      obtain ⟨inner, holds, read⟩ := Option.bind_eq_some_iff.mp read
      obtain ⟨items, more, rfl⟩ := Option.map_eq_some_iff.mp read
      obtain ⟨named, rfl⟩ := payload?_eq_some_iff.mp announced
      have fits : payload.length < 2 ^ 64 :=
        fits_of_announced (UInt8.not_lt.mp kind) b.toNat_lt named
      have spelled := Spells.list (ih₁ holds) fits (ih₂ more)
      rwa [header_of_announced _ named] at spelled

theorem items?_of_spells {bytes : List UInt8} {items : List Item} (spelled : Spells items bytes) :
    items? bytes = some items := by
  induction spelled with
  | nil => rw [items?]
  | plain small _ ih => rw [items?, if_pos small, ih, Option.map_some]
  | @string payload items rest large fits _ ih =>
      have first := toNat_header 0x80 (by decide) fits
      have few := (code_lt_iff _).mpr fits
      rw [header, List.cons_append, items?_string _ _
        (payload?_eq_some_iff.mpr ⟨announced_of_header 0x80 fits, rfl⟩) large, ih, Option.map_some]
      · rw [UInt8.lt_iff_toNat_lt, first]
        exact Nat.not_lt.mpr (Nat.le_add_right _ _)
      · rw [UInt8.lt_iff_toNat_lt, first]
        exact Nat.add_lt_add_left few 128
  | @list inner payload items rest _ fits _ ih₁ ih₂ =>
      have first := toNat_header 0xc0 (by decide) fits
      rw [header, List.cons_append, items?_list _ _
        (payload?_eq_some_iff.mpr ⟨announced_of_header 0xc0 fits, rfl⟩), ih₁, ih₂]
      · rfl
      · rw [UInt8.lt_iff_toNat_lt, first]
        exact Nat.not_lt.mpr (Nat.le_trans (by decide) (Nat.le_add_right _ _))
      · rw [UInt8.lt_iff_toNat_lt, first]
        exact Nat.not_lt.mpr (Nat.le_add_right _ _)

theorem items?_eq_some_iff {bytes : List UInt8} {items : List Item} :
    items? bytes = some items ↔ Spells items bytes :=
  ⟨spells_of_items?, items?_of_spells⟩

/-- A sequence of items has one spelling. -/
theorem Spells.unique {items : List Item} {bytes bytes' : List UInt8} (spelled : Spells items bytes)
    (spelled' : Spells items bytes') : bytes = bytes' := by
  induction spelled generalizing bytes' with
  | nil =>
      cases spelled'
      rfl
  | plain small _ ih =>
      cases spelled' with
      | plain _ more => rw [ih more]
      | string large => simp [isPlain, small] at large
  | string large _ _ ih =>
      cases spelled' with
      | plain small => simp [isPlain, small] at large
      | string _ _ more => rw [ih more]
  | list _ _ _ ih₁ ih₂ =>
      cases spelled' with
      | list holds _ more => rw [ih₁ holds, ih₂ more]

/-- The one item that a string spells. -/
def item? (bytes : List UInt8) : Option Item :=
  match items? bytes with
  | some [item] => some item
  | _ => none

theorem item?_eq_some_iff {bytes : List UInt8} {item : Item} :
    item? bytes = some item ↔ Spells [item] bytes := by
  rw [← items?_eq_some_iff, item?]
  split <;> simp_all

end Rlp
end EvmEngine
