import EvmEngine.Proofs.Ledger.Initial
import Mathlib.Algebra.BigOperators.Group.Finset.Basic
import Mathlib.Algebra.GroupWithZero.Nat

/-!
The balances of all accounts together, as a natural number. Writing one account changes the sum by
the new balance less the one it replaces; so a credit raises it, a debit lowers it, and everything
else that is done to an account, short of deleting it, leaves it alone.
-/

namespace EvmEngine

instance Address.transOrd : Std.TransOrd Address := inferInstanceAs (Std.TransOrd (BitVec 160))

namespace World

def balance (w : World) (a : Address) : Word :=
  (w.account? a).elim 0 Account.balance

/-- The sum of all balances. -/
def supply (w : World) : Nat :=
  (w.accounts.toList.map fun entry => entry.2.balance.toNat).sum

/-- Accounts that are not there hold nothing, so that any set that covers those that are will do. -/
theorem supply_eq_sum {w : World} {s : Finset Address}
    (covers : ∀ a, (w.account? a).isSome → a ∈ s) : w.supply = ∑ a ∈ s, (w.balance a).toNat := by
  have listed : w.accounts.toList.map (fun entry => entry.2.balance.toNat) =
      w.accounts.keys.map fun a => (w.balance a).toNat := by
    rw [← Std.ExtTreeMap.map_fst_toList_eq_keys, List.map_map]
    refine List.map_congr_left fun ⟨a, account⟩ member => ?_
    have held : w.account? a = some account :=
      Std.ExtTreeMap.mem_toList_iff_getElem?_eq_some.mp member
    simp [balance, held]
  rw [supply, listed, ← List.sum_toFinset _ Std.ExtTreeMap.nodup_keys]
  refine Finset.sum_subset (fun a member => ?_) fun a _ outside => ?_
  · rw [List.mem_toFinset, Std.ExtTreeMap.mem_keys] at member
    exact covers a (Std.ExtTreeMap.mem_iff_isSome_getElem?.mp member)
  · rw [List.mem_toFinset, Std.ExtTreeMap.mem_keys, Std.ExtTreeMap.mem_iff_isSome_getElem?] at outside
    have absent : w.account? a = none := Option.not_isSome_iff_eq_none.mp outside
    simp [balance, absent]

/-- The accounts of a world, and one more address. -/
def holders (w : World) (a : Address) : Finset Address :=
  insert a w.accounts.keys.toFinset

theorem mem_holders {w : World} {a b : Address} (held : (w.account? b).isSome) :
    b ∈ w.holders a := by
  simp only [holders, Finset.mem_insert, List.mem_toFinset, Std.ExtTreeMap.mem_keys]
  exact .inr (Std.ExtTreeMap.mem_iff_isSome_getElem?.mpr held)

theorem supply_setAccount (w : World) (a : Address) (account : Option Account) :
    (w.setAccount a account).supply + (w.balance a).toNat =
      w.supply + (account.elim 0 Account.balance).toNat := by
  have member : a ∈ w.holders a := Finset.mem_insert_self _ _
  have covers : ∀ b, ((w.setAccount a account).account? b).isSome → b ∈ w.holders a := by
    intro b held
    rw [account?_setAccount] at held
    split at held
    · next same => exact same ▸ member
    · exact mem_holders held
  have others : ∑ b ∈ (w.holders a).erase a, ((w.setAccount a account).balance b).toNat =
      ∑ b ∈ (w.holders a).erase a, (w.balance b).toNat := by
    refine Finset.sum_congr rfl fun b inside => ?_
    have distinct : a ≠ b := (Finset.ne_of_mem_erase inside).symm
    simp [balance, distinct]
  have new : (w.setAccount a account).balance a = account.elim 0 Account.balance := by
    simp [balance]
  rw [supply_eq_sum covers, supply_eq_sum fun b => mem_holders (a := a),
    ← Finset.add_sum_erase _ _ member, ← Finset.add_sum_erase _ _ member, others, new]
  omega

theorem supply_setSlot (w : World) (place : Slot) (value : Option Word) :
    (w.setSlot place value).supply = w.supply := by
  cases value <;> rfl

theorem balance_le_supply (w : World) (a : Address) : (w.balance a).toNat ≤ w.supply := by
  have removed := w.supply_setAccount a none
  have nothing : (Option.elim none 0 Account.balance).toNat = 0 := rfl
  omega

end World

namespace Ledger

variable {l l' : Ledger} {a : Address} {amount : Word}

theorem balance_eq (l : Ledger) (a : Address) :
    l.balance a = ((l.world.account? a).getD .blank).balance := by
  simp only [balance]
  cases l.world.account? a <;> rfl

theorem balance_modifyAccount (l : Ledger) (a b : Address) {f : Account → Account}
    (same : ∀ account, (f account).balance = account.balance) :
    (l.modifyAccount a f).balance b = l.balance b := by
  simp only [balance_eq, modifyAccount, world_putAccount, World.account?_setAccount]
  split
  · next is => rw [Option.getD_some, same, is]
  · rfl

theorem balance_raiseNonce (l : Ledger) (a b : Address) (n : UInt64) :
    (l.modifyAccount a fun account => { account with nonce := account.nonce + n }).balance b =
      l.balance b :=
  l.balance_modifyAccount a b fun _ => rfl

theorem balance_createAccount (l : Ledger) (a b : Address) :
    (l.createAccount a).balance b = l.balance b := by
  simp only [balance_eq, createAccount, world_putAccount, world_clearStorage,
    World.account?_setAccount]
  split
  · next is => rw [Option.getD_some, is]
  · rfl

theorem supply_modifyAccount (l : Ledger) (a : Address) (f : Account → Account) :
    (l.modifyAccount a f).world.supply + (l.balance a).toNat =
      l.world.supply + (f ((l.world.account? a).getD .blank)).balance.toNat := by
  rw [modifyAccount, world_putAccount]
  exact l.world.supply_setAccount a _

theorem supply_of_same_balance (l : Ledger) (a : Address) {f : Account → Account}
    (same : ∀ account, (f account).balance = account.balance) :
    (l.modifyAccount a f).world.supply = l.world.supply := by
  have changed := l.supply_modifyAccount a f
  rw [same, ← balance_eq] at changed
  omega

theorem supply_bumpNonce (l : Ledger) (a : Address) :
    (l.bumpNonce a).world.supply = l.world.supply :=
  l.supply_of_same_balance a fun _ => rfl

theorem supply_store (l : Ledger) (a : Address) (key value : Word) :
    (l.store a key value).world.supply = l.world.supply := by
  rw [store, world_putSlot, World.supply_setSlot]

theorem supply_createAccount (l : Ledger) (a : Address) :
    (l.createAccount a).world.supply = l.world.supply := by
  have written := (l.world.clearStorage a).supply_setAccount a
    (some { Account.blank with balance := l.balance a })
  have kept : (l.world.clearStorage a).supply = l.world.supply := rfl
  rw [createAccount, world_putAccount, world_clearStorage, ← kept]
  exact Nat.add_right_cancel written

/-- Deleting an account takes away what it holds. -/
theorem supply_delete (l : Ledger) (a : Address) :
    (l.delete a).world.supply + (l.balance a).toNat = l.world.supply := by
  have written := (l.world.clearStorage a).supply_setAccount a none
  have kept : (l.world.clearStorage a).supply = l.world.supply := rfl
  have nothing : (Option.elim none 0 Account.balance).toNat = 0 := rfl
  rw [delete, world_putAccount, world_clearStorage]
  rw [kept, nothing, Nat.add_zero] at written
  exact written

theorem debit_eq_ok :
    l.debit a amount = .ok l' ↔ amount ≤ l.balance a ∧
      l' = l.modifyAccount a fun account => { account with balance := l.balance a - amount } := by
  simp only [debit]
  split
  · next short => simp [BitVec.not_le.mpr short]
  · next covered => simp [BitVec.not_lt.mp covered, eq_comm]

theorem credit_eq_ok :
    l.credit a amount = .ok l' ↔ (l.balance a).toNat + amount.toNat < 2 ^ 256 ∧
      l' = l.modifyAccount a fun account => { account with balance := l.balance a + amount } := by
  simp only [credit]
  split
  · next wraps =>
      simp only [BitVec.uaddOverflow, ge_iff_le, decide_eq_true_eq] at wraps
      simp [Nat.not_lt.mpr wraps]
  · next fits =>
      simp only [BitVec.uaddOverflow, ge_iff_le, decide_eq_true_eq, Nat.not_le] at fits
      simp [fits, eq_comm]

theorem supply_debit (h : l.debit a amount = .ok l') :
    l'.world.supply + amount.toNat = l.world.supply := by
  obtain ⟨covered, rfl⟩ := debit_eq_ok.mp h
  have enough : amount.toNat ≤ (l.balance a).toNat := BitVec.le_def.mp covered
  have changed := l.supply_modifyAccount a fun account =>
    { account with balance := l.balance a - amount }
  rw [BitVec.toNat_sub_of_le covered] at changed
  omega

theorem supply_credit (h : l.credit a amount = .ok l') :
    l'.world.supply = l.world.supply + amount.toNat := by
  obtain ⟨fits, rfl⟩ := credit_eq_ok.mp h
  have changed := l.supply_modifyAccount a fun account =>
    { account with balance := l.balance a + amount }
  rw [BitVec.toNat_add, Nat.mod_eq_of_lt fits] at changed
  omega

theorem supply_saveCode {code : ByteArray} (h : l.saveCode a code = .ok l') :
    l'.world.supply = l.world.supply := by
  simp only [saveCode] at h
  split at h
  · cases h
    exact l.supply_of_same_balance a fun _ => rfl
  · cases h

/-- A debit that is covered succeeds, and the credit that follows it only fails where all balances
together do not fit a word. -/
theorem credit_after_debit {l₁ : Ledger} {b : Address} {cause : StateError}
    (debited : l.debit a amount = .ok l₁) (refused : l₁.credit b amount = .error cause) :
    cause = .balanceOverflow b ∧ 2 ^ 256 ≤ l.world.supply := by
  have rest := supply_debit debited
  have held : (l₁.balance b).toNat ≤ l₁.world.supply := l₁.world.balance_le_supply b
  simp only [credit] at refused
  split at refused
  · next wraps =>
      cases refused
      simp only [BitVec.uaddOverflow, ge_iff_le, decide_eq_true_eq] at wraps
      exact ⟨rfl, by omega⟩
  · cases refused

end Ledger
end EvmEngine
