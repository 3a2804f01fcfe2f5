import EvmEngine.Precompile
import EvmEngine.Proofs.Bytes

/-!
Recovery does not tell a signature from its negative. The order of the group is odd, so that of two
numbers that add up to it one lies in the lower half, and both signatures are normalized to the one
that holds it. Whatever the key is then found by, it is the same, and so are the address and the
answer of the contract.
-/

namespace EvmEngine

open Bytes

namespace Secp256k1

namespace Signature

/-- The signature with the second number negated in the group and the other parity. -/
def negated (sig : Signature) : Signature :=
  ⟨sig.r, groupOrder - sig.s, !sig.odd⟩

theorem normalize_negated (sig : Signature) (below : sig.s < groupOrder) :
    sig.negated.normalize = sig.normalize := by
  have uneven : groupOrder % 2 = 1 := by decide
  by_cases high : groupOrder / 2 < sig.s
  · have low : ¬ groupOrder / 2 < sig.negated.s := by
      simp only [negated]
      omega
    rw [normalize, normalize, if_pos high, if_neg low, negated]
  · have high' : groupOrder / 2 < sig.negated.s := by
      simp only [negated]
      omega
    have twice : groupOrder - (groupOrder - sig.s) = sig.s := Nat.sub_sub_self (Nat.le_of_lt below)
    rw [normalize, normalize, if_neg high, if_pos high']
    simp only [negated, twice, Bool.not_not]

/-- The negative is refused where the signature is, and otherwise normalized alike, so that nothing
that comes after tells them apart. -/
theorem bind_normalize_negated {α : Type} (next : Signature → Option α) (r : Nat) {s : Nat}
    (odd : Bool) (positive : 0 < s) (below : s < groupOrder) :
    ((ofNumbers? r (groupOrder - s) !odd).bind fun sig => next sig.normalize) =
      (ofNumbers? r s odd).bind fun sig => next sig.normalize := by
  rw [ofNumbers?, ofNumbers?]
  by_cases accepted : 0 < r ∧ r < groupOrder
  · rw [if_pos (by omega), if_pos (by omega), Option.bind_some, Option.bind_some]
    have alike : Signature.normalize ⟨r, groupOrder - s, !odd⟩ = Signature.normalize ⟨r, s, odd⟩ :=
      normalize_negated ⟨r, s, odd⟩ below
    rw [alike]
  · rw [if_neg (by omega), if_neg (by omega)]

end Signature

/-- Recovery by any function that finds the key of a normalized signature. -/
def recoverBy (publicKey? : Signature → Nat → Option (Nat × Nat)) (digest : Hash) (r s : Word)
    (v : UInt8) : Option Address := do
  let parity ←
    match normalizedV v with
    | 0 => some false
    | 1 => some true
    | _ => none
  let sig ← Signature.ofNumbers? r.toNat s.toNat parity
  let (x, y) ← publicKey? sig.normalize digest.toNat
  return Word.toAddress (keccak256 (Bytes.ofNat 32 x ++ Bytes.ofNat 32 y))

theorem recover?_eq_recoverBy : recover? = recoverBy Signature.publicKey? :=
  rfl

/-- The negative of a number in the group. -/
def negate (s : Word) : Word :=
  BitVec.ofNat 256 (groupOrder - s.toNat)

theorem toNat_negate (s : Word) : (negate s).toNat = groupOrder - s.toNat := by
  have fits : groupOrder < 2 ^ 256 := by decide
  rw [negate, BitVec.toNat_ofNat, Nat.mod_eq_of_lt (by omega)]

theorem recoverBy_negate (publicKey? : Signature → Nat → Option (Nat × Nat)) (digest : Hash)
    (r : Word) {s : Word} {v : UInt8} (positive : 0 < s.toNat) (below : s.toNat < groupOrder)
    (legacy : v = 27 ∨ v = 28) :
    recoverBy publicKey? digest r (negate s) (55 - v) = recoverBy publicKey? digest r s v := by
  have alike (odd : Bool) := Signature.bind_normalize_negated
    (fun sig => do
      let (x, y) ← publicKey? sig digest.toNat
      return Word.toAddress (keccak256 (Bytes.ofNat 32 x ++ Bytes.ofNat 32 y)))
    r.toNat odd positive below
  rw [← toNat_negate] at alike
  obtain rfl | rfl := legacy
  · exact alike false
  · exact alike true

end Secp256k1

namespace Precompile

/-- The four words of an input: a digest, a recovery number, and the two numbers of a signature. -/
def recoveryInput (digest : Hash) (v : UInt8) (r s : Word) : ByteArray :=
  Word.concat [digest, BitVec.ofNat 256 v.toNat, r, s]

theorem recoverSigner?_recoveryInput (digest : Hash) (r s : Word) {v : UInt8}
    (legacy : v = 27 ∨ v = 28) :
    recoverSigner? (recoveryInput digest v r s) = Secp256k1.recover? digest r s v := by
  have read {i : Nat} (inside : i < 4) :=
    Word.ofBytes_window_concat [digest, BitVec.ofNat 256 v.toNat, r, s] inside
  have valid : BitVec.ofNat 256 v.toNat = (27 : Word) ∨ BitVec.ofNat 256 v.toNat = (28 : Word) := by
    obtain rfl | rfl := legacy
    · exact .inl rfl
    · exact .inr rfl
  have back : UInt8.ofNat (BitVec.ofNat 256 v.toNat).toNat = v := by
    obtain rfl | rfl := legacy <;> rfl
  simp only [recoverSigner?, recoveryInput, read (by decide : 0 < 4), read (by decide : 1 < 4),
    read (by decide : 2 < 4), read (by decide : 3 < 4), List.getElem_cons_zero,
    List.getElem_cons_succ]
  rw [if_pos valid, back]

/-- A signature and its negative, which has the other parity, recover the same address or none,
whatever finds the key, and the contract answers both inputs alike at the same price. -/
theorem recovery_of_negated (digest : Hash) (r : Word) {s : Word} {v : UInt8} (gasLimit : UInt64)
    (positive : 0 < s.toNat) (below : s.toNat < Secp256k1.groupOrder) (legacy : v = 27 ∨ v = 28) :
    (∀ publicKey?, Secp256k1.recoverBy publicKey? digest r (Secp256k1.negate s) (55 - v) =
      Secp256k1.recoverBy publicKey? digest r s v) ∧
    Secp256k1.recover? digest r (Secp256k1.negate s) (55 - v) = Secp256k1.recover? digest r s v ∧
    ecRecover.run (recoveryInput digest (55 - v) r (Secp256k1.negate s)) gasLimit =
      ecRecover.run (recoveryInput digest v r s) gasLimit := by
  have same (publicKey?) := Secp256k1.recoverBy_negate publicKey? digest r positive below legacy
  have recovered := same Secp256k1.Signature.publicKey?
  rw [← Secp256k1.recover?_eq_recoverBy] at recovered
  refine ⟨same, recovered, ?_⟩
  have legacy' : 55 - v = 27 ∨ 55 - v = 28 := by
    obtain rfl | rfl := legacy
    · exact .inr rfl
    · exact .inl rfl
  simp only [run, price, output?, recoverSigner?_recoveryInput digest r s legacy,
    recoverSigner?_recoveryInput digest r (Secp256k1.negate s) legacy', recovered]

/-- The public key here is the generator, found once with the second number in the lower half and
once with it in the upper half. -/
theorem recovery_of_negated_generator :
    let digest : Hash := 5
    let r : Word := 0x79be667ef9dcbbac55a06295ce870b07029bfcdb2dce28d959f2815b16f81798
    let s : Word := 0x79be667ef9dcbbac55a06295ce870b07029bfcdb2dce28d959f2815b16f8179d
    let signer : Address := 0x7e5f4552091a69125d5dfcb7b8c2659029395bdf
    0 < s.toNat ∧ s.toNat ≤ Secp256k1.groupOrder / 2 ∧
      Secp256k1.groupOrder / 2 < (Secp256k1.negate s).toNat ∧
      Secp256k1.recover? digest r s 27 = some signer ∧
      Secp256k1.recover? digest r (Secp256k1.negate s) 28 = some signer ∧
      ecRecover.run (recoveryInput digest 28 r (Secp256k1.negate s)) 3000 =
        ecRecover.run (recoveryInput digest 27 r s) 3000 := by
  intro digest r s signer
  have recovered : Secp256k1.recover? digest r s 27 = some signer := by decide +kernel
  obtain ⟨-, same, answered⟩ :=
    recovery_of_negated digest r (v := 27) 3000 (by decide : 0 < s.toNat) (by decide) (.inl rfl)
  exact ⟨by decide, by decide, by decide, recovered, same.trans recovered, answered⟩

end Precompile
end EvmEngine
