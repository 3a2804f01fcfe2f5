import EvmEngine.Proofs.Ledger.Code

/-!
When accounts and slots represent a state of the chain: no zero is stored, no slot is without its
account, and each account carries the digest of its code. Whatever is written keeps the first and the
last of these; the second takes that only accounts which exist are given slots.
-/

namespace EvmEngine

/-- The account carries the digest of its code. -/
def Account.Hashed (account : Account) : Prop :=
  account.codeHash = if account.code.isEmpty then emptyCodeHash else keccak256 account.code

theorem Account.hashed_blank : Account.blank.Hashed := by
  simp [Hashed, blank, ByteArray.isEmpty]

theorem Account.hashed_withCode (account : Account) (code : ByteArray) :
    (account.withCode code).Hashed :=
  rfl

namespace World

/-- No zero is stored, and every account carries the digest of its code. -/
structure Clean (w : World) : Prop where
  filled : ∀ place value, w.slot? place = some value → value ≠ 0
  hashed : ∀ a account, w.account? a = some account → account.Hashed

/-- Besides, every slot that is stored belongs to an account that exists. -/
structure WellFormed (w : World) : Prop extends Clean w where
  owned : ∀ a key, (w.slot? (a, key)).isSome → (w.account? a).isSome

theorem stored_ne_zero {value kept : Word} (h : stored value = some kept) : kept ≠ 0 := by
  simp only [stored] at h
  split at h
  · cases h
  · next filled =>
      cases h
      exact filled

theorem Clean.setAccount {w : World} (h : w.Clean) (a : Address) {account : Option Account}
    (hashed : ∀ x, account = some x → x.Hashed) : (w.setAccount a account).Clean := by
  refine ⟨fun place value found => h.filled place value (by simpa using found), ?_⟩
  intro b x found
  rw [account?_setAccount] at found
  split at found
  · exact hashed x found
  · exact h.hashed b x found

theorem Clean.setSlot {w : World} (h : w.Clean) (place : Slot) (value : Word) :
    (w.setSlot place (stored value)).Clean := by
  refine ⟨fun other kept found => ?_, fun b x found => h.hashed b x (by simpa using found)⟩
  rw [slot?_setSlot] at found
  split at found
  · exact stored_ne_zero found
  · exact h.filled other kept found

theorem Clean.clearStorage {w : World} (h : w.Clean) (a : Address) : (w.clearStorage a).Clean := by
  refine ⟨fun place value found => ?_, h.hashed⟩
  rw [slot?_clearStorage] at found
  split at found
  · cases found
  · exact h.filled place value found

theorem WellFormed.setAccount {w : World} (h : w.WellFormed) (a : Address) {account : Account}
    (hashed : account.Hashed) : (w.setAccount a (some account)).WellFormed := by
  refine ⟨h.toClean.setAccount a fun x same => Option.some.inj same ▸ hashed, fun b key found => ?_⟩
  exact isSome_setAccount w a b account (h.owned b key (by simpa using found))

theorem WellFormed.setSlot {w : World} (h : w.WellFormed) {a : Address} (key value : Word)
    (there : (w.account? a).isSome) : (w.setSlot (a, key) (stored value)).WellFormed := by
  refine ⟨h.toClean.setSlot _ _, fun b other found => ?_⟩
  rw [slot?_setSlot] at found
  rw [account?_setSlot]
  split at found
  · next same =>
      obtain rfl : a = b := congrArg Prod.fst same
      exact there
  · exact h.owned b other found

theorem wellFormed_empty : World.empty.WellFormed := by
  refine ⟨⟨fun place value found => ?_, fun a account found => ?_⟩, fun a key found => ?_⟩ <;>
    simp [World.empty, slot?, account?] at found

end World

open World

namespace Ledger

variable {l l' : Ledger} {a : Address}

theorem clean_modifyAccount (h : l.world.Clean) {f : Account → Account}
    (keeps : ∀ x, x.Hashed → (f x).Hashed) : (l.modifyAccount a f).world.Clean := by
  rw [modifyAccount, world_putAccount]
  refine h.setAccount a fun x same => ?_
  cases same
  refine keeps _ ?_
  cases held : l.world.account? a with
  | none => exact Account.hashed_blank
  | some x => exact h.hashed a x held

theorem clean_saveCode {code : ByteArray} (h : l.world.Clean) (stored : l.saveCode a code = .ok l') :
    l'.world.Clean := by
  simp only [saveCode] at stored
  split at stored
  · cases stored
    exact clean_modifyAccount h fun x _ => x.hashed_withCode code
  · cases stored

end Ledger

namespace World

theorem Write.clean {w w' : World} (write : Write w w') (h : w.Clean) : w'.Clean := by
  cases write with
  | store l a key value =>
      rw [Ledger.store, Ledger.world_putSlot]
      exact h.setSlot _ _
  | pay paid =>
      obtain ⟨l, l₁, l₂, debited, credited, rfl, rfl⟩ := paid
      obtain ⟨-, rfl⟩ := Ledger.debit_eq_ok.mp debited
      obtain ⟨-, rfl⟩ := Ledger.credit_eq_ok.mp credited
      refine Ledger.clean_modifyAccount (Ledger.clean_modifyAccount h ?_) ?_ <;>
        exact fun _ hashed => hashed
  | raise l a n => exact Ledger.clean_modifyAccount h fun _ hashed => hashed
  | create l a free =>
      rw [Ledger.createAccount, Ledger.world_putAccount, Ledger.world_clearStorage]
      refine (h.clearStorage a).setAccount a fun x same => ?_
      cases same
      exact Account.hashed_blank
  | deposit stored => exact Ledger.clean_saveCode h stored

theorem Writes.clean {w w' : World} (writes : Writes w w') (h : w.Clean) : w'.Clean := by
  induction writes with
  | refl => exact h
  | tail _ write ih => exact write.clean ih

/-- Writes keep a world well formed where they fill no slot but those of accounts that exist. -/
theorem WellFormed.write {w w' : World} (h : w.WellFormed) (writes : Writes w w')
    (fills : ∀ a key, (w'.slot? (a, key)).isSome → (w.slot? (a, key)).isSome ∨ (w.account? a).isSome) :
    w'.WellFormed := by
  refine ⟨writes.clean h.toClean, fun a key found => ?_⟩
  obtain before | exists' := fills a key found
  · exact writes.isSome (h.owned a key before)
  · exact writes.isSome exists'

end World

namespace Ledger

theorem wellFormed_bumpNonce {l : Ledger} (h : l.world.WellFormed) (a : Address) :
    (l.bumpNonce a).world.WellFormed :=
  h.write (.single (.raise l a 1)) fun b key found =>
    .inl (by simpa [bumpNonce, modifyAccount] using found)

/-- An account is deleted together with its slots. -/
theorem wellFormed_delete {l : Ledger} (h : l.world.WellFormed) (a : Address) :
    (l.delete a).world.WellFormed := by
  rw [delete, world_putAccount, world_clearStorage]
  have clean : ((l.world.clearStorage a).setAccount a none).Clean :=
    (h.toClean.clearStorage a).setAccount a fun x same => by cases same
  refine ⟨clean, fun b key found => ?_⟩
  rw [slot?_setAccount, slot?_clearStorage] at found
  rw [account?_setAccount]
  split at found
  · cases found
  · next other =>
      rw [if_neg (Ne.symm other)]
      exact h.owned b key found

theorem wellFormed_deleteAll (accounts : List Address) {l : Ledger} (h : l.world.WellFormed) :
    (accounts.foldl delete l).world.WellFormed := by
  induction accounts generalizing l with
  | nil => exact h
  | cons a accounts ih => exact ih (wellFormed_delete h a)

end Ledger
end EvmEngine
