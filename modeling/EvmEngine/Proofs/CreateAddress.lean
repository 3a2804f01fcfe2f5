import EvmEngine.CreateAddress
import EvmEngine.Proofs.Rlp.Encoding

/-!
Addresses of new accounts are told apart before anything is hashed. What is hashed for a nonce is the
one spelling of a list of the creator and the nonce, from which both are read back, and it never
begins like what is hashed for a salt. So where two addresses are the same that follow from different
things, two different strings are known whose digests agree.
-/

namespace EvmEngine

open Rlp

namespace Address

@[simp] theorem size_toBytes (a : Address) : a.toBytes.size = 20 :=
  Bytes.size_ofNat 20 a.toNat

theorem length_toBytes (a : Address) : a.toBytes.data.toList.length = 20 := by
  rw [Array.length_toList]
  exact a.size_toBytes

theorem value_toBytes (a : Address) : value a.toBytes.data.toList = a.toNat := by
  have fits : a.toNat < 256 ^ 20 := a.isLt
  exact value_ofNat fits

theorem toBytes_inj {a b : Address} (same : a.toBytes.data.toList = b.toBytes.data.toList) :
    a = b := by
  have fits : a.toNat < 256 ^ 20 := a.isLt
  exact BitVec.eq_of_toNat_eq (ofNat_inj fits b.isLt same)

end Address

namespace Word

theorem length_toBytes (w : Word) : w.toBytes.data.toList.length = 32 := by
  rw [Array.length_toList]
  exact w.size_toBytes

theorem toBytes_inj {a b : Word} (same : a.toBytes.data.toList = b.toBytes.data.toList) :
    a = b := by
  have fits : a.toNat < 256 ^ 32 := a.isLt
  exact BitVec.eq_of_toNat_eq (ofNat_inj fits b.isLt same)

end Word

namespace CreateAddress

/-- The list of a creator, as a string of 20 bytes, and a nonce, as a number. -/
def item (creator : Address) (nonce : UInt64) : Item :=
  .list [.string creator.toBytes.data.toList, .string (digits nonce.toNat)]

/-- Reads a list of a string of 20 bytes and of a number of 64 bits without a zero before it. -/
def creation? : Item → Option (Address × UInt64)
  | .list [.string creator, .string nonce] =>
      if creator.length = 20 ∧ nonce.length ≤ 8 ∧ nonce.head? ≠ some 0 then
        some (BitVec.ofNat 160 (value creator), UInt64.ofNat (value nonce))
      else none
  | _ => none

theorem size_significantBytes (nonce : UInt64) : (significantBytes nonce.toNat).size ≤ 8 := by
  have bound := nonce.toNat_lt
  have size : (significantBytes nonce.toNat).size = (digits nonce.toNat).length := by
    rw [← significantBytes_eq_digits, Array.length_toList]
    rfl
  rw [size, length_digits_le_iff]
  omega

theorem creation?_item (creator : Address) (nonce : UInt64) :
    creation? (item creator nonce) = some (creator, nonce) := by
  have few : (digits nonce.toNat).length ≤ 8 := by
    rw [← significantBytes_eq_digits, Array.length_toList]
    exact size_significantBytes nonce
  rw [item, creation?, if_pos ⟨creator.length_toBytes, few, head?_digits _⟩, Address.value_toBytes, value_digits,
    BitVec.ofNat_toNat, BitVec.setWidth_eq, UInt64.ofNat_toNat]

/-- The bytes of the list that is hashed for a nonce. -/
def payload (creator : Address) (nonce : UInt64) : ByteArray :=
  [encodeString creator.toBytes, encodeNat nonce.toNat].foldl (· ++ ·) ByteArray.empty

theorem size_payload_le (creator : Address) (nonce : UInt64) : (payload creator nonce).size ≤ 30 := by
  have first := size_encodeString_le creator.toBytes
  have second := size_encodeString_le (significantBytes nonce.toNat)
  have few := size_significantBytes nonce
  rw [creator.size_toBytes] at first
  simp only [payload, List.foldl_cons, List.foldl_nil, ByteArray.size_append, ByteArray.size_empty,
    encodeNat]
  omega

theorem spells_noncePreimage (creator : Address) (nonce : UInt64) :
    Spells [item creator nonce] (noncePreimage creator nonce).data.toList := by
  have short : creator.toBytes.size ≤ 55 := by
    rw [creator.size_toBytes]
    decide
  have few := Nat.le_trans (size_significantBytes nonce) (by decide : 8 ≤ 55)
  have pair := spells_encodeString short (spells_encodeString few .nil)
  rw [significantBytes_eq_digits, List.append_nil] at pair
  refine spells_encodeList (Nat.le_trans (size_payload_le creator nonce) (by decide)) ?_
  simpa [encodeNat] using pair

theorem item?_noncePreimage (creator : Address) (nonce : UInt64) :
    item? (noncePreimage creator nonce).data.toList = some (item creator nonce) :=
  item?_eq_some_iff.mpr (spells_noncePreimage creator nonce)

theorem noncePreimage_inj {creator creator' : Address} {nonce nonce' : UInt64}
    (same : noncePreimage creator nonce = noncePreimage creator' nonce') :
    creator = creator' ∧ nonce = nonce' := by
  have read := item?_noncePreimage creator nonce
  rw [same, item?_noncePreimage] at read
  have pair := creation?_item creator nonce
  rw [← Option.some.inj read, creation?_item] at pair
  obtain ⟨rfl, rfl⟩ := Prod.mk.inj (Option.some.inj pair)
  exact ⟨rfl, rfl⟩

theorem toList_saltPreimage (creator : Address) (salt : Word) (initCode : ByteArray) :
    (saltPreimage creator salt initCode).data.toList =
      0xff :: (creator.toBytes.data.toList ++
        (salt.toBytes.data.toList ++ (Word.toBytes (keccak256 initCode)).data.toList)) := by
  simp [saltPreimage]

/-- The list that is hashed for a nonce is too short to begin like what is hashed for a salt. -/
theorem noncePreimage_ne_saltPreimage (creator creator' : Address) (nonce : UInt64) (salt : Word)
    (initCode : ByteArray) :
    noncePreimage creator nonce ≠ saltPreimage creator' salt initCode := by
  intro same
  have few := size_payload_le creator nonce
  have first : (noncePreimage creator nonce).data.toList =
      (0xc0 + UInt8.ofNat (payload creator nonce).size) :: (payload creator nonce).data.toList := by
    show (ByteArray.mk #[_] ++ payload creator nonce).data.toList = _
    rw [ByteArray.data_append, Array.toList_append]
    rfl
  rw [same, toList_saltPreimage] at first
  have marks := congrArg UInt8.toNat (List.cons.inj first).1
  rw [UInt8.toNat_add, UInt8.toNat_ofNat_of_lt' (Nat.lt_of_le_of_lt few (by decide))] at marks
  change 255 = (192 + _) % 256 at marks
  omega

theorem saltPreimage_inj {creator creator' : Address} {salt salt' : Word}
    {initCode initCode' : ByteArray}
    (same : saltPreimage creator salt initCode = saltPreimage creator' salt' initCode') :
    creator = creator' ∧ salt = salt' ∧ keccak256 initCode = keccak256 initCode' := by
  have lists := congrArg (fun b => b.data.toList) same
  simp only [toList_saltPreimage] at lists
  have creators : creator.toBytes.data.toList.length = creator'.toBytes.data.toList.length := by
    rw [Address.length_toBytes, Address.length_toBytes]
  have salts : salt.toBytes.data.toList.length = salt'.toBytes.data.toList.length := by
    rw [Word.length_toBytes, Word.length_toBytes]
  obtain ⟨left, rest⟩ := List.append_inj (List.cons.inj lists).2 creators
  obtain ⟨middle, right⟩ := List.append_inj rest salts
  exact ⟨Address.toBytes_inj left, Word.toBytes_inj middle, Word.toBytes_inj right⟩

/-- What the address of a new account follows from. -/
inductive Source
  | nonce (creator : Address) (nonce : UInt64)
  | salt (creator : Address) (salt : Word) (initCode : ByteArray)

namespace Source

def preimage : Source → ByteArray
  | nonce creator n => noncePreimage creator n
  | salt creator s initCode => saltPreimage creator s initCode

def address : Source → Address
  | nonce creator n => ofNonce creator n
  | salt creator s initCode => ofSalt creator s initCode

theorem address_eq (s : Source) : s.address = Word.toAddress (keccak256 s.preimage) := by
  cases s <;> rfl

/-- The same creator and salt with two init codes that have the same digest, which is all that is
hashed of them. -/
def SameDigest (s s' : Source) : Prop :=
  ∃ creator salted initCode initCode', s = salt creator salted initCode ∧
    s' = salt creator salted initCode' ∧ initCode ≠ initCode' ∧
    keccak256 initCode = keccak256 initCode'

theorem preimage_eq_iff {s s' : Source} :
    s.preimage = s'.preimage ↔ s = s' ∨ SameDigest s s' := by
  constructor
  · intro same
    cases s with
    | nonce creator n =>
        cases s' with
        | nonce creator' n' =>
            obtain ⟨rfl, rfl⟩ := noncePreimage_inj same
            exact .inl rfl
        | salt creator' salted' initCode' =>
            exact (noncePreimage_ne_saltPreimage _ _ _ _ _ same).elim
    | salt creator salted initCode =>
        cases s' with
        | nonce creator' n' => exact (noncePreimage_ne_saltPreimage _ _ _ _ _ same.symm).elim
        | salt creator' salted' initCode' =>
            obtain ⟨rfl, rfl, digests⟩ := saltPreimage_inj same
            by_cases codes : initCode = initCode'
            · exact .inl (by rw [codes])
            · exact .inr ⟨creator, salted, initCode, initCode', rfl, rfl, codes, digests⟩
  · rintro (rfl | ⟨creator, salted, initCode, initCode', rfl, rfl, -, digests⟩)
    · rfl
    · rw [preimage, preimage, saltPreimage, saltPreimage, digests]

/-- Two addresses are the same only where a digest is. -/
theorem address_eq_iff {s s' : Source} :
    s.address = s'.address ↔ s = s' ∨ SameDigest s s' ∨
      s.preimage ≠ s'.preimage ∧
        Word.toAddress (keccak256 s.preimage) = Word.toAddress (keccak256 s'.preimage) := by
  rw [s.address_eq, s'.address_eq, ← or_assoc, ← preimage_eq_iff]
  by_cases same : s.preimage = s'.preimage
  · simp [same]
  · simp [same]

end Source

/-- What is hashed for a nonce is the only spelling of the list of the creator and the nonce, and a
reader of the spelling finds both. So different creators or nonces are hashed as different strings,
none of which is hashed for a salt, and different things have the same address only where two
different strings are known whose digests agree, or agree as far as an address goes. -/
theorem preimages_unambiguous (creator : Address) (nonce : UInt64) :
    (∀ bytes, Spells [item creator nonce] bytes ↔
      bytes = (noncePreimage creator nonce).data.toList) ∧
    (∀ bytes, item? bytes = some (item creator nonce) ↔
      bytes = (noncePreimage creator nonce).data.toList) ∧
    (item? (noncePreimage creator nonce).data.toList).bind creation? = some (creator, nonce) ∧
    (∀ creator' nonce', noncePreimage creator' nonce' = noncePreimage creator nonce ↔
      creator' = creator ∧ nonce' = nonce) ∧
    (∀ creator' salt initCode, noncePreimage creator nonce ≠ saltPreimage creator' salt initCode) ∧
    ∀ s s' : Source, s.address = s'.address ↔ s = s' ∨ s.SameDigest s' ∨
      s.preimage ≠ s'.preimage ∧
        Word.toAddress (keccak256 s.preimage) = Word.toAddress (keccak256 s'.preimage) := by
  have spelled := spells_noncePreimage creator nonce
  have only : ∀ bytes, Spells [item creator nonce] bytes ↔
      bytes = (noncePreimage creator nonce).data.toList := fun bytes =>
    ⟨fun other => other.unique spelled, fun same => same ▸ spelled⟩
  refine ⟨only, fun bytes => item?_eq_some_iff.trans (only bytes), ?_, fun creator' nonce' => ?_,
    fun creator' => noncePreimage_ne_saltPreimage creator creator' nonce,
    fun s s' => Source.address_eq_iff⟩
  · rw [item?_noncePreimage, Option.bind_some, creation?_item]
  · exact ⟨noncePreimage_inj, fun same => by rw [same.1, same.2]⟩

end CreateAddress
end EvmEngine
