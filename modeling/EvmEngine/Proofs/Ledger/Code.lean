import EvmEngine.Proofs.Ledger.Writes

/-!
What makes an account its own: its nonce, its code and its slots. Payments leave these alone in every
account, and what is done to one account leaves them alone in every other. An account with a nonce or
code is taken.
-/

namespace EvmEngine

namespace World

def nonce (w : World) (a : Address) : UInt64 :=
  (w.account? a).elim 0 Account.nonce

def code (w : World) (a : Address) : ByteArray :=
  (w.account? a).elim ByteArray.empty Account.code

/-- An account that has a nonce or code. -/
def Taken (w : World) (a : Address) : Prop :=
  w.nonce a ≠ 0 ∨ (w.code a).isEmpty = false

/-- An account has the nonce, the code and the slots that it had before. -/
structure Spared (a : Address) (w w' : World) : Prop where
  nonce : w'.nonce a = w.nonce a
  code : w'.code a = w.code a
  slots : ∀ key, w'.slot? (a, key) = w.slot? (a, key)

/-- Accounts that had code have it still. -/
def KeepsCode (w w' : World) : Prop :=
  ∀ a, (w.code a).isEmpty = false → w'.code a = w.code a

theorem Spared.refl (a : Address) (w : World) : Spared a w w :=
  ⟨rfl, rfl, fun _ => rfl⟩

theorem Spared.trans {a : Address} {w w₁ w₂ : World} (first : Spared a w w₁)
    (second : Spared a w₁ w₂) : Spared a w w₂ :=
  ⟨second.nonce.trans first.nonce, second.code.trans first.code,
    fun key => (second.slots key).trans (first.slots key)⟩

theorem KeepsCode.refl (w : World) : KeepsCode w w :=
  fun _ _ => rfl

theorem KeepsCode.trans {w w₁ w₂ : World} (first : KeepsCode w w₁) (second : KeepsCode w₁ w₂) :
    KeepsCode w w₂ := by
  intro a has
  have kept := first a has
  rw [← kept] at has
  exact (second a has).trans kept

theorem KeepsCode.of_same {w w' : World} (same : ∀ a, w'.code a = w.code a) : KeepsCode w w' :=
  fun a _ => same a

theorem KeepsCode.of_spared {w w' : World} (spared : ∀ a, w.Taken a → Spared a w w') :
    KeepsCode w w' :=
  fun a has => (spared a (.inr has)).code

theorem nonce_eq (w : World) (a : Address) : w.nonce a = ((w.account? a).getD .blank).nonce := by
  simp only [nonce]
  cases w.account? a <;> rfl

theorem code_eq (w : World) (a : Address) : w.code a = ((w.account? a).getD .blank).code := by
  simp only [code]
  cases w.account? a <;> rfl

end World

open World

namespace Ledger

variable {l l' : Ledger} {a b : Address} {amount : Word}

theorem code_modifyAccount (l : Ledger) (a b : Address) {f : Account → Account}
    (same : ∀ account, (f account).code = account.code) :
    (l.modifyAccount a f).world.code b = l.world.code b := by
  simp only [code_eq, modifyAccount, world_putAccount, account?_setAccount]
  split
  · next is => rw [Option.getD_some, same, is]
  · rfl

theorem nonce_modifyAccount (l : Ledger) (a b : Address) {f : Account → Account}
    (same : ∀ account, (f account).nonce = account.nonce) :
    (l.modifyAccount a f).world.nonce b = l.world.nonce b := by
  simp only [nonce_eq, modifyAccount, world_putAccount, account?_setAccount]
  split
  · next is => rw [Option.getD_some, same, is]
  · rfl

theorem code_bumpNonce (l : Ledger) (a b : Address) :
    (l.bumpNonce a).world.code b = l.world.code b :=
  l.code_modifyAccount a b fun _ => rfl

/-- Changing nothing but the balance spares every account. -/
theorem spared_setBalance (l : Ledger) (a b : Address) (balance : Word) :
    Spared b l.world (l.modifyAccount a fun account => { account with balance }).world where
  nonce := l.nonce_modifyAccount a b fun _ => rfl
  code := l.code_modifyAccount a b fun _ => rfl
  slots key := by simp [modifyAccount]

theorem spared_debit (h : l.debit a amount = .ok l') (b : Address) : Spared b l.world l'.world := by
  obtain ⟨-, rfl⟩ := debit_eq_ok.mp h
  exact l.spared_setBalance a b _

theorem spared_credit (h : l.credit a amount = .ok l') (b : Address) :
    Spared b l.world l'.world := by
  obtain ⟨-, rfl⟩ := credit_eq_ok.mp h
  exact l.spared_setBalance a b _

theorem code_store (l : Ledger) (a : Address) (key value : Word) (b : Address) :
    (l.store a key value).world.code b = l.world.code b := by
  simp [World.code, store]

theorem spared_putAccount (l : Ledger) (account : Option Account) (other : a ≠ b) :
    Spared b l.world (l.putAccount a account).world := by
  refine ⟨?_, ?_, fun key => ?_⟩ <;> simp [World.nonce, World.code, other]

theorem spared_clearStorage (l : Ledger) (other : a ≠ b) :
    Spared b l.world (l.clearStorage a).world := by
  refine ⟨?_, ?_, fun key => ?_⟩
  · rw [world_clearStorage]
    rfl
  · rw [world_clearStorage]
    rfl
  · simp [Ne.symm other]

theorem spared_createAccount (l : Ledger) (other : a ≠ b) :
    Spared b l.world (l.createAccount a).world :=
  (l.spared_clearStorage other).trans (spared_putAccount _ _ other)

theorem spared_delete (l : Ledger) (other : a ≠ b) : Spared b l.world (l.delete a).world :=
  (l.spared_clearStorage other).trans (spared_putAccount _ _ other)

theorem spared_saveCode {code : ByteArray} (h : l.saveCode a code = .ok l') (other : a ≠ b) :
    Spared b l.world l'.world := by
  simp only [saveCode] at h
  split at h
  · cases h
    exact l.spared_putAccount _ other
  · cases h

end Ledger

/-- There is no account, and no slot of it. -/
structure World.Absent (a : Address) (w : World) : Prop where
  account : w.account? a = none
  slots : ∀ key, w.slot? (a, key) = none

namespace Ledger

theorem absent_delete (l : Ledger) (a : Address) : Absent a (l.delete a).world := by
  refine ⟨?_, fun key => ?_⟩ <;> simp [delete]

theorem absent_after_delete {l : Ledger} {a : Address} (absent : Absent a l.world) (b : Address) :
    Absent a (l.delete b).world := by
  refine ⟨?_, fun key => ?_⟩
  · rw [delete, world_putAccount, world_clearStorage, account?_setAccount]
    split
    · rfl
    · exact absent.account
  · rw [delete, world_putAccount, world_clearStorage, slot?_setAccount, slot?_clearStorage]
    split
    · rfl
    · exact absent.slots key

/-- Every account that is deleted is gone in the end, whatever is deleted after it. -/
theorem absent_deleteAll {accounts : List Address} {a : Address} (member : a ∈ accounts)
    (l : Ledger) : Absent a (accounts.foldl delete l).world := by
  have stays (rest : List Address) (l : Ledger) (absent : Absent a l.world) :
      Absent a (rest.foldl delete l).world := by
    induction rest generalizing l with
    | nil => exact absent
    | cons b rest ih => exact ih _ (absent_after_delete absent b)
  induction accounts generalizing l with
  | nil => cases member
  | cons b rest ih =>
      cases member with
      | head => exact stays rest _ (l.absent_delete a)
      | tail _ later => exact ih later _

theorem spared_deleteAll {accounts : List Address} {a : Address} (other : a ∉ accounts)
    (l : Ledger) : Spared a l.world (accounts.foldl delete l).world := by
  induction accounts generalizing l with
  | nil => exact .refl a _
  | cons b rest ih =>
      obtain ⟨first, later⟩ := not_or.mp (List.mem_cons.not.mp other)
      exact (l.spared_delete (Ne.symm first)).trans (ih later _)

end Ledger

theorem World.Pays.spared {source destination : Address} {amount : Word} {w w' : World}
    (h : Pays source destination amount w w') (a : Address) : Spared a w w' := by
  obtain ⟨l, l₁, l₂, debited, credited, rfl, rfl⟩ := h
  exact (Ledger.spared_debit debited a).trans (Ledger.spared_credit credited a)

end EvmEngine
