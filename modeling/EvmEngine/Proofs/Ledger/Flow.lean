import EvmEngine.Proofs.Ledger.Writes

/-!
What an account receives and what it spends. A payment takes from one account what it gives to
another, exactly, and no other write moves value; so along any writes an account spends at most what
it held at the beginning and what it has received since.
-/

namespace EvmEngine

namespace Ledger

variable {l l' : Ledger} {a : Address} {amount : Word}

theorem balance_setBalance (l : Ledger) (a b : Address) (balance : Word) :
    (l.modifyAccount a fun account => { account with balance }).balance b =
      if a = b then balance else l.balance b := by
  simp only [balance_eq, modifyAccount, world_putAccount, World.account?_setAccount]
  split <;> rfl

/-- In exact numbers, what a debit leaves in each account. -/
theorem balance_debit (h : l.debit a amount = .ok l') (b : Address) :
    (l'.balance b).toNat + (if a = b then amount.toNat else 0) = (l.balance b).toNat := by
  obtain ⟨covered, rfl⟩ := debit_eq_ok.mp h
  have enough : amount.toNat ≤ (l.balance a).toNat := BitVec.le_def.mp covered
  rw [balance_setBalance]
  split
  · next same =>
      rw [← same, BitVec.toNat_sub_of_le covered]
      omega
  · rfl

/-- In exact numbers, what each account holds after a credit. -/
theorem balance_credit (h : l.credit a amount = .ok l') (b : Address) :
    (l'.balance b).toNat = (l.balance b).toNat + (if a = b then amount.toNat else 0) := by
  obtain ⟨fits, rfl⟩ := credit_eq_ok.mp h
  rw [balance_setBalance]
  split
  · next same => rw [← same, BitVec.toNat_add, Nat.mod_eq_of_lt fits]
  · rfl

end Ledger

namespace World

variable {w w' w'' : World} {a : Address}

/-- A payment takes what it gives. -/
theorem Pays.balance {source destination : Address} {amount : Word}
    (h : Pays source destination amount w w') (a : Address) :
    (w'.balance a).toNat + (if source = a then amount.toNat else 0) =
      (w.balance a).toNat + (if destination = a then amount.toNat else 0) := by
  obtain ⟨l, l₁, l₂, debited, credited, rfl, rfl⟩ := h
  have taken := Ledger.balance_debit debited a
  have given := Ledger.balance_credit credited a
  have start : l.world.balance a = l.balance a := rfl
  have last : l₂.world.balance a = l₂.balance a := rfl
  rw [start, last]
  omega

/-- Writes that lead from one world to another, with what an account has received and spent on the
way: the sums of the payments to it and of those from it. -/
inductive Flow (a : Address) (w : World) : World → Nat → Nat → Prop
  | start : Flow a w w 0 0
  | write {w' w'' : World} {received spent : Nat} (flow : Flow a w w' received spent)
      (write : Write w' w'') (still : ∀ b, w''.balance b = w'.balance b) :
      Flow a w w'' received spent
  | pay {w' w'' : World} {received spent : Nat} {source destination : Address} {amount : Word}
      (flow : Flow a w w' received spent) (paid : Pays source destination amount w' w'') :
      Flow a w w'' (received + if destination = a then amount.toNat else 0)
        (spent + if source = a then amount.toNat else 0)

/-- What an account holds and has spent is what it held and has received. -/
theorem Flow.balance {received spent : Nat} (h : Flow a w w' received spent) :
    (w'.balance a).toNat + spent = (w.balance a).toNat + received := by
  induction h with
  | start => rfl
  | write flow write still ih => rw [still a, ih]
  | pay flow paid ih =>
      have moved := paid.balance a
      omega

/-- Every write is a payment or moves no value. -/
theorem Flow.extend {received spent : Nat} (h : Flow a w w' received spent) (write : Write w' w'') :
    ∃ received' spent', Flow a w w'' received' spent' := by
  cases write with
  | pay paid => exact ⟨_, _, h.pay paid⟩
  | store l b key value =>
      exact ⟨_, _, h.write (.store l b key value) fun c => by simp [World.balance, Ledger.store]⟩
  | raise l b n => exact ⟨_, _, h.write (.raise l b n) fun c => l.balance_raiseNonce b c n⟩
  | create l b free => exact ⟨_, _, h.write (.create l b free) fun c => l.balance_createAccount b c⟩
  | @deposit l l' b code stored =>
      refine ⟨_, _, h.write (.deposit stored) fun c => ?_⟩
      simp only [Ledger.saveCode] at stored
      split at stored
      · cases stored
        exact l.balance_modifyAccount b c fun _ => rfl
      · cases stored

/-- All writes can be accounted for. -/
theorem Writes.flow (h : Writes w w') (a : Address) :
    ∃ received spent, Flow a w w' received spent := by
  induction h with
  | refl => exact ⟨0, 0, .start⟩
  | tail _ write ih =>
      obtain ⟨_, _, flow⟩ := ih
      exact flow.extend write

end World
end EvmEngine
