import EvmEngine.Proofs.Calls.Checkpoints
import EvmEngine.Proofs.Ledger.Code

/-!
Which accounts setting a frame up and finishing it leave alone. A creation is only entered at an
account that is not taken, and spares every account that is; a frame that is finished spares every
account but the one it was entered to create.
-/

namespace EvmEngine

open Effects World

namespace Journaled

theorem onLedger_edits {f : Ledger → Except StateError Ledger} {l : Ledger} {P : World → Prop}
    (changed : ∀ l', f l = .ok l' → l'.saved = l.saved ∧ P l'.world) :
    Edits (onLedger f) l (fun _ w => P w) (fun _ => True) := by
  cases ran : f l with
  | ok l' =>
      have done : onLedger f l = .ok () l' := by simp only [onLedger, ran]
      exact .of_ok done (changed l' ran)
  | error cause =>
      have refused : onLedger f l = .error (.state cause) l := by simp only [onLedger, ran]
      exact .of_error refused ⟨rfl, trivial⟩

theorem transfer_spares (source destination : Address) (value : Word) (l : Ledger) :
    Edits (transfer source destination value) l (fun _ w => ∀ a, Spared a l.world w)
      (fun _ => True) := by
  refine (onLedger_edits (P := fun w => ∀ a, Spared a l.world w) fun l' debited =>
    ⟨Ledger.saved_debit debited, Ledger.spared_debit debited⟩).bind fun _ l₁ ⟨saved, spared⟩ => ?_
  refine (onLedger_edits (P := fun w => ∀ a, Spared a l.world w) fun l' credited =>
    ⟨Ledger.saved_credit credited, fun a => ?_⟩).mono (fun _ _ ⟨same, given⟩ => ?_)
    fun _ _ ⟨same, _⟩ => ?_
  · exact (spared a).trans (Ledger.spared_credit credited a)
  · exact ⟨same.trans saved, given⟩
  · exact ⟨same.trans saved, trivial⟩

end Journaled

open Journaled

theorem CallRequest.Moves.spared {r : CallRequest} {w w' : World} (h : r.Moves w w')
    (a : Address) : Spared a w w' := by
  simp only [Moves] at h
  split at h
  · exact h.spared a
  · exact h ▸ .refl a w

/-- Setting up a call pays, and enters no frame that is to create an account. -/
theorem CallRequest.prepare_spares {r : CallRequest} {host : Host} {tx : TxContext}
    {depth : UInt64} {l : Ledger} :
    Ensures (r.prepare host tx depth) l
      (fun prepared l' => (∀ a, Spared a l.world l'.world) ∧
        ∀ child a, prepared = .enter child → child.target ≠ .account a)
      (fun _ _ => True) := by
  refine prepare_ensures.mono (fun prepared l' follows => ⟨fun a => ?_, ?_⟩) fun _ _ _ => trivial
  · cases prepared with
    | finished result =>
        cases success : result.success with
        | true => exact (follows.succeeded success).spared a
        | false => exact follows.failed success ▸ .refl a _
    | enter child => exact follows.moved.spared a
  · rintro child a same target
    cases same
    obtain ⟨-, code, rfl⟩ := follows.enters
    cases target

namespace CreateRequest

variable {r : CreateRequest} {host : Host} {tx : TxContext} {depth : UInt64} {address : Address}
  {l : Ledger}

theorem collides_iff : collides l address = true ↔ l.world.Taken address := by
  simp only [collides, Bool.or_eq_true, bne_iff_ne, ne_eq, Bool.not_eq_true']
  rfl

/-- What making the new account establishes is kept if changing that account and paying keep it. -/
theorem setUp_keeps {P : World → Prop} (rules : Rules) (made : P (l.createAccount address).world)
    (raised : ∀ l₁ account, P l₁.world → P (Ledger.putAccount l₁ address (some account)).world)
    (paid : ∀ w w', P w → (∀ a, Spared a w w') → P w') :
    Edits (r.setUp rules address) l (fun _ w => P w) (fun _ => True) := by
  have pays (l₁ : Ledger) (saved : l₁.saved = l.saved) (before : P l₁.world) :
      Edits (if r.value ≠ 0 then transfer r.creator address r.value else pure ()) l₁
        (fun _ w => P w) (fun _ => True) := by
    split
    · exact (transfer_spares _ _ _ l₁).mono (fun _ _ ⟨same, spared⟩ => ⟨same, paid _ _ before spared⟩)
        fun _ _ failed => failed
    · exact .of_ok rfl ⟨rfl, before⟩
  refine .after (t := l.createAccount address) rfl ?_
  dsimp only
  split
  · refine .after (t := (l.createAccount address).modifyAccount address fun account =>
      { account with nonce := account.nonce + rules.createNonce }) rfl ?_
    rw [← l.saved_createAccount address, ← (l.createAccount address).saved_modifyAccount address]
    exact pays _ (by simp) (raised _ _ made)
  · rw [← l.saved_createAccount address]
    exact pays _ (by simp) made

/-- All that setting a creation up does, beside the payment, is done to the new account. -/
theorem setUp_spares (rules : Rules) :
    Edits (r.setUp rules address) l (fun _ w => ∀ a, address ≠ a → Spared a l.world w)
      (fun _ => True) :=
  setUp_keeps (P := fun w => ∀ a, address ≠ a → Spared a l.world w) rules
    (fun _ other => l.spared_createAccount other)
    (fun l₁ _ before a other => (before a other).trans (l₁.spared_putAccount _ other))
    fun _ _ before spared a other => (before a other).trans (spared a)

/-- A creation at an account that is taken is refused with a collision and does nothing. -/
theorem enter_taken (taken : l.world.Taken address) :
    r.enter host tx depth address l =
      .ok (.finished (.ofFault r.gas (.addressCollision address))) l := by
  refine bind_eq_ok.mpr ⟨l, l, rfl, ?_⟩
  rw [if_pos (collides_iff.mpr taken)]
  rfl

/-- A creation spares every account that is taken, and enters a frame only where its own is not. -/
theorem enter_spares :
    Ensures (r.enter host tx depth address) l
      (fun prepared l' => (∀ a, l.world.Taken a → Spared a l.world l'.world) ∧
        ∀ child, prepared = .enter child →
          child.target = .account address ∧ ¬ l.world.Taken address)
      (fun _ l' => l'.world = l.world) := by
  by_cases taken : l.world.Taken address
  · refine .of_ok (enter_taken taken) ⟨fun a _ => .refl a _, fun child same => ?_⟩
    cases same
  · refine .after (a := l) (t := l) rfl ?_
    rw [if_neg (fun collides => taken (collides_iff.mp collides))]
    refine ((withinCheckpoint_ensures (setUp_spares (l := l.checkpoint) _)).mono
      (fun _ _ done => done) fun _ _ failed => failed.1.1).bind fun _ l₁ ⟨_, spared⟩ => ?_
    refine .of_ok rfl ⟨fun a held => spared a ?_, fun child same => ?_⟩
    · rintro rfl
      exact taken held
    · cases same
      exact ⟨rfl, taken⟩

theorem spared_enter {a : Address} (taken : l.world.Taken a) :
    Spared a l.world (endState (r.enter host tx depth address) l).world :=
  enter_spares.endState (P := fun l' => Spared a l.world l'.world)
    (fun _ _ spares => spares.1 a taken) fun _ _ restored => restored ▸ .refl a _

theorem prepare_spares :
    Ensures (r.prepare host tx depth) l
      (fun answer l' =>
        (∀ a, (r.opening host.rules depth l).world.Taken a →
          Spared a (r.opening host.rules depth l).world l'.world) ∧
        ∀ child, answer.1 = .enter child →
          ∃ a, child.target = .account a ∧ ¬ (r.opening host.rules depth l).world.Taken a)
      (fun _ l' => l'.world = (r.opening host.rules depth l).world) := by
  refine .after (a := l) (t := l) rfl ?_
  simp only [opening]
  cases refused : r.isRefused host.rules l depth with
  | true =>
      refine .of_ok rfl ⟨fun a _ => .refl a _, fun child same => ?_⟩
      cases same
  | false =>
      refine .after (a := l) (t := l) rfl (.after (t := l.bumpNonce r.creator) rfl ?_)
      refine enter_spares.bind fun prepared l₁ entered => .of_ok rfl ⟨entered.1, fun child same => ?_⟩
      exact ⟨_, entered.2 child same⟩

theorem spared_prepare {a : Address} (taken : (r.opening host.rules depth l).world.Taken a) :
    Spared a (r.opening host.rules depth l).world (endState (r.prepare host tx depth) l).world :=
  prepare_spares.endState (P := fun l' => Spared a (r.opening host.rules depth l).world l'.world)
    (fun _ _ spares => spares.1 a taken) fun _ _ restored => restored ▸ .refl a _

end CreateRequest

namespace Frame

variable {f : Frame} {host : Host} {l : Ledger}

theorem depositCode_keeps {P : World → Prop} (rules : Rules) (result : CallResult)
    (address : Address) (same : P l.world)
    (deposited : ∀ code l', l.saveCode address code = .ok l' → P l'.world) :
    Edits (depositCode rules result address) l (fun _ w => P w) (fun _ => True) := by
  rw [depositCode]
  dsimp only
  split
  · exact .of_ok rfl ⟨rfl, same⟩
  · split
    · split <;> exact .of_ok rfl ⟨rfl, same⟩
    · refine (onLedger_edits (P := P) fun l' stored => ⟨Ledger.saved_saveCode stored, ?_⟩).bind
        fun _ _ done => .of_ok rfl done
      exact deposited _ l' stored

/-- A frame that is finished has the world go back to where it was entered, or puts code into the
account it was to create and does nothing else. -/
theorem complete_keeps {P : World → Prop} {w : World} {rest : List World}
    (inside : l.saved = w :: rest) (same : P l.world)
    (deposited : ∀ a code l', f.target = .account a → l.saveCode a code = .ok l' → P l'.world) :
    Ensures (f.complete host) l
      (fun result l' => if result.success then P l'.world else l'.world = w)
      (fun _ l' => l'.world = w) := by
  have settles : Ensures (f.settled host.rules) l
      (fun _ l' => l'.saved = w :: rest ∧ P l'.world) (fun _ l' => l'.world = w) := by
    rw [settled]
    split
    · next address target =>
        split
        · refine (orDiscard_ensures (depositCode_keeps (P := P) _ _ _ same fun code l' =>
            deposited address code l' target) inside).mono (fun _ _ done => done)
            fun _ _ failed => failed.1.1
        · exact .of_ok rfl ⟨inside, same⟩
    · exact .of_ok rfl ⟨inside, same⟩
  rw [complete_eq]
  refine settles.bind fun result l₁ settled => ?_
  obtain ⟨kept, holds⟩ := settled
  obtain ⟨l₂, closed, -, world⟩ := close_ok result kept
  refine .after closed (.of_ok rfl ?_)
  rw [world]
  split
  · exact holds
  · rfl

/-- A frame that is finished spares every account but the one it was to create. -/
theorem complete_spares {w : World} {rest : List World} (inside : l.saved = w :: rest) :
    Ensures (f.complete host) l
      (fun result l' => if result.success then
        ∀ a, f.target ≠ .account a → Spared a l.world l'.world else l'.world = w)
      (fun _ l' => l'.world = w) := by
  refine complete_keeps (P := fun w' => ∀ a, f.target ≠ .account a → Spared a l.world w') inside
    (fun a _ => .refl a _) fun address code l' target stored a other => ?_
  refine Ledger.spared_saveCode stored fun same => other ?_
  rw [target, same]

theorem spared_complete {w : World} {rest : List World} (inside : l.saved = w :: rest)
    {a : Address} (other : f.target ≠ .account a) :
    (endState (f.complete host) l).world = w ∨
      Spared a l.world (endState (f.complete host) l).world := by
  refine (complete_spares inside).endState (P := fun l' => l'.world = w ∨ Spared a l.world l'.world)
    (fun result l' left => ?_) fun _ _ restored => .inl restored
  split at left
  · exact .inr (left a other)
  · exact .inl left

end Frame
end EvmEngine
