import EvmEngine.Proofs.Ledger.Supply
import Mathlib.Logic.Relation

/-!
Everything that is done to accounts and slots while frames run, said once. What each of these writes
keeps is kept by every run: balances move from one account to another and their sum stays, and an
account that is there stays there. For want of anything else the ledger can refuse a payment only
where all balances together do not fit a word.
-/

namespace EvmEngine

namespace World

/-- An amount goes from one account to another. -/
def Pays (source destination : Address) (amount : Word) (w w' : World) : Prop :=
  ∃ l l₁ l₂ : Ledger, l.debit source amount = .ok l₁ ∧ l₁.credit destination amount = .ok l₂ ∧
    l.world = w ∧ l₂.world = w'

/-- One thing that is done to a world. -/
inductive Write : World → World → Prop
  | store (l : Ledger) (a : Address) (key value : Word) : Write l.world (l.store a key value).world
  | pay {source destination : Address} {amount : Word} {w w' : World}
      (paid : Pays source destination amount w w') : Write w w'
  | raise (l : Ledger) (a : Address) (n : UInt64) :
      Write l.world (l.modifyAccount a fun account =>
        { account with nonce := account.nonce + n }).world
  | create (l : Ledger) (a : Address) (free : l.nonce a = 0 ∧ (l.code a).isEmpty = true) :
      Write l.world (l.createAccount a).world
  | deposit {l l' : Ledger} {a : Address} {code : ByteArray} (stored : l.saveCode a code = .ok l') :
      Write l.world l'.world

/-- Any number of writes, one after the other. -/
abbrev Writes : World → World → Prop :=
  Relation.ReflTransGen Write

theorem Write.supply {w w' : World} (h : Write w w') : w'.supply = w.supply := by
  cases h with
  | store l a key value => exact l.supply_store a key value
  | pay paid =>
      obtain ⟨l, l₁, l₂, debited, credited, rfl, rfl⟩ := paid
      rw [Ledger.supply_credit credited, Ledger.supply_debit debited]
  | raise l a n => exact l.supply_of_same_balance a fun _ => rfl
  | create l a free => exact l.supply_createAccount a
  | deposit stored => exact Ledger.supply_saveCode stored

theorem Writes.supply {w w' : World} (h : Writes w w') : w'.supply = w.supply := by
  induction h with
  | refl => rfl
  | tail _ write ih => exact write.supply.trans ih

theorem isSome_setAccount (w : World) (a b : Address) (account : Account)
    (held : (w.account? b).isSome) : ((w.setAccount a (some account)).account? b).isSome := by
  rw [account?_setAccount]
  split
  · rfl
  · exact held

theorem Write.isSome {w w' : World} (h : Write w w') {a : Address}
    (held : (w.account? a).isSome) : (w'.account? a).isSome := by
  cases h with
  | store l => simpa [Ledger.store] using held
  | pay paid =>
      obtain ⟨l, l₁, l₂, debited, credited, rfl, rfl⟩ := paid
      obtain ⟨-, rfl⟩ := Ledger.debit_eq_ok.mp debited
      obtain ⟨-, rfl⟩ := Ledger.credit_eq_ok.mp credited
      simp only [Ledger.modifyAccount, Ledger.world_putAccount]
      exact isSome_setAccount _ _ _ _ (isSome_setAccount _ _ _ _ held)
  | raise l =>
      simp only [Ledger.modifyAccount, Ledger.world_putAccount]
      exact isSome_setAccount _ _ _ _ held
  | create l b =>
      simp only [Ledger.createAccount, Ledger.world_putAccount, Ledger.world_clearStorage]
      exact isSome_setAccount _ _ _ _ held
  | @deposit l l' b code stored =>
      simp only [Ledger.saveCode] at stored
      split at stored
      · cases stored
        simp only [Ledger.modifyAccount, Ledger.world_putAccount]
        exact isSome_setAccount _ _ _ _ held
      · cases stored

theorem Writes.isSome {w w' : World} (h : Writes w w') {a : Address}
    (held : (w.account? a).isSome) : (w'.account? a).isSome := by
  induction h with
  | refl => exact held
  | tail _ write ih => exact write.isSome ih

/-- An account that pays itself, and can, is left as it was. -/
theorem Pays.to_itself {a : Address} {amount : Word} {w w' : World} (h : Pays a a amount w w')
    (positive : amount ≠ 0) : w' = w := by
  obtain ⟨l, l₁, l₂, debited, credited, rfl, rfl⟩ := h
  obtain ⟨covered, rfl⟩ := Ledger.debit_eq_ok.mp debited
  obtain ⟨-, rfl⟩ := Ledger.credit_eq_ok.mp credited
  obtain ⟨account, known⟩ : ∃ account, l.world.account? a = some account := by
    cases known : l.world.account? a with
    | some account => exact ⟨account, rfl⟩
    | none =>
        rw [Ledger.balance_eq, known] at covered
        have nothing : amount.toNat ≤ 0 := covered
        exact absurd (BitVec.eq_of_toNat_eq (Nat.le_zero.mp nothing)) positive
  have back : account.balance - amount + amount = account.balance := BitVec.sub_add_cancel _ _
  apply ext_lookup
  · intro b
    by_cases same : a = b
    · subst same
      simp [Ledger.modifyAccount, Ledger.balance, known, back]
    · simp [Ledger.modifyAccount, same]
  · simp [Ledger.modifyAccount]

end World

/-- A credit that is refused because the balances together do not fit a word. -/
def EngineError.Overflows (w : World) (e : EngineError) : Prop :=
  (∃ a, e = .state (.balanceOverflow a)) ∧ 2 ^ 256 ≤ w.supply

theorem EngineError.Overflows.before {e : EngineError} {w w' : World} (h : e.Overflows w')
    (writes : World.Writes w w') : e.Overflows w :=
  ⟨h.1, writes.supply ▸ h.2⟩

end EvmEngine
