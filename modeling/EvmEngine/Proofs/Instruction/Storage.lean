import EvmEngine.Proofs.Instruction.Ledger
import EvmEngine.Proofs.Instruction.Requests
import EvmEngine.Proofs.Ledger.Code

/-!
Writes to storage. An instruction leaves the refund counter and every slot alone, unless it is a write
to storage that succeeds: that pays the price of one slot, changes the counter by what the price says,
and writes the slot. One that fails has changed neither.
-/

namespace EvmEngine

open Effects Exec

namespace Focus

/-- The price of a write to a slot of the account that the frame acts on. -/
def price (s : Focus) (rules : Rules) (key value : Word) : Gas.SstoreCost :=
  Gas.sstoreCost rules (s.ledger.initialValue s.frame.env.address key)
    (s.ledger.load s.frame.env.address key) value

/-- A write to a slot, which is paid for and counted. -/
structure Stored (rules : Rules) (key value : Word) (s s' : Focus) : Prop where
  ledger : s'.ledger = s.ledger.store s.frame.env.address key value
  refund : s'.frame.refund = Gas.addRefund s.frame.refund (s.price rules key value).refund
  gas : s'.frame.gas.toNat + (s.price rules key value).gas.toNat ≤ s.frame.gas.toNat

/-- What a step does to the refund counter and to storage. -/
inductive Touches (rules : Rules) (s s' : Focus) : Prop
  | nothing (refund : s'.frame.refund = s.frame.refund)
      (slots : ∀ place, s'.ledger.world.slot? place = s.ledger.world.slot? place)
  | slot (key value : Word) (stored : Stored rules key value s s')

variable {rules : Rules} {op : Opcode} {s s' t : Focus}

theorem Pays.leaves {price : Nat} (pays : s.Pays price t) : s.Leaves t where
  ledger := pays.ledger
  refund := by rw [pays.frame]
  logs := by rw [pays.frame]
  destroyed := by rw [pays.frame]

/-- What only pays may come before a write. -/
theorem Stored.after {key value : Word} {price : Nat} (pays : s.Pays price t)
    (stored : Stored rules key value t s') : Stored rules key value s s' := by
  have gas := stored.gas
  have paid := pays.gas
  have same : t.price rules key value = s.price rules key value := by
    simp only [Focus.price, pays.ledger, pays.env]
  rw [same] at gas
  refine ⟨?_, ?_, by omega⟩
  · rw [stored.ledger, pays.ledger, pays.env]
  · rw [stored.refund, pays.leaves.refund, same]

theorem Change.spares (h : Change op s s') (other : op ≠ .sstore) :
    s'.frame.refund = s.frame.refund ∧
      ∀ place, s'.ledger.world.slot? place = s.ledger.world.slot? place := by
  cases h with
  | work works => exact ⟨works.refund, fun _ => rfl⟩
  | log => exact ⟨rfl, fun _ => rfl⟩
  | destroy =>
      refine ⟨?_, fun _ => rfl⟩
      simp only [Frame.recordDestroyed]
      split <;> rfl
  | debit _ _ paid => exact ⟨rfl, fun place => (Ledger.spared_debit paid place.1).slots place.2⟩
  | credit _ _ paid => exact ⟨rfl, fun place => (Ledger.spared_credit paid place.1).slots place.2⟩
  | refund _ isStore | store _ _ isStore => exact absurd isStore other

/-- Only a write to storage changes the refund counter or a slot. -/
theorem Moves.spares (h : Moves op s s') (other : op ≠ .sstore) :
    s'.frame.refund = s.frame.refund ∧
      ∀ place, s'.ledger.world.slot? place = s.ledger.world.slot? place := by
  induction h with
  | refl => exact ⟨rfl, fun _ => rfl⟩
  | tail _ change ih =>
      obtain ⟨refund, slots⟩ := change.spares other
      exact ⟨refund.trans ih.1, fun place => (slots place).trans (ih.2 place)⟩

end Focus

open Focus

namespace Exec

/-- An action that, where it fails, leaves the ledger and the record of its frame alone. -/
abbrev Leaving {α : Type} (x : Exec α) (s : Focus) (post : α → Focus → Prop) : Prop :=
  Ensures x s post (fun _ t => s.Leaves t)

theorem leaving_bind {α β : Type} {x : Exec α} {f : α → Exec β} {s : Focus}
    {post : β → Focus → Prop} (within : ∀ env, Within .stop env x)
    (next : ∀ a t, x s = .ok a t → Leaving (f a) t post) : Leaving (x >>= f) s post := by
  have quiet := Within.quiet within s
  have first : Leaving x s (fun a t => x s = .ok a t) :=
    ⟨fun ran => ran, fun failed => (quiet.error failed).2⟩
  refine first.bind fun a t ran => ?_
  exact (next a t ran).mono (fun _ _ done => done) fun _ _ left => (quiet.ok ran).trans left

end Exec

namespace Instruction

theorem sstore_leaving (host : Host) (s : Focus) :
    Leaving (sstore host) s (fun _ t => ∃ key value, Stored host.rules key value s t) := by
  refine leaving_bind (fun _ => within_mutable) fun _ t free => ?_
  obtain ⟨mutable, rfl⟩ := requireMutable_ok free
  refine leaving_bind (fun _ => within_ofStack) fun ⟨key, value⟩ t popped => ?_
  obtain ⟨stack, -, rfl⟩ := ofStack_ok popped
  refine .after (a := { s.frame with stack }) rfl ?_
  dsimp only
  split
  · exact .of_error rfl (.refl _)
  · refine .after (a := s.ledger) rfl (leaving_bind (fun _ => within_spend _) fun _ t spent => ?_)
    obtain ⟨pays, -⟩ := spend_ok spent
    have free : t.frame.env.isStatic = false := by
      rw [pays.env]
      exact mutable
    have done : (do
        modifyFrame (·.addRefund (s.price host.rules key value).refund)
        store key value : Exec Unit) t =
          .ok () { frame := t.frame.addRefund (s.price host.rules key value).refund,
                   ledger := t.ledger.store t.frame.env.address key value } := by
      have unlocked : (t.frame.addRefund (s.price host.rules key value).refund).requireMutable =
          .ok () := if_neg (by rw [Frame.addRefund, free]; exact Bool.false_ne_true)
      simp only [bind, EStateM.bind, modifyFrame, store, requireMutable, unlocked]
      rfl
    have gas := pays.gas
    refine .of_ok done ⟨key, value, ?_, ?_, Nat.le_of_eq gas⟩
    · show t.ledger.store t.frame.env.address key value = _
      rw [pays.ledger, pays.env]
    · show Gas.addRefund t.frame.refund _ = _
      rw [pays.leaves.refund]

end Instruction

theorem OpcodeEntry.dispatch_leaving {entry : OpcodeEntry} (isStore : entry.opcode = .sstore)
    (host : Host) (s : Focus) :
    Leaving (entry.dispatch host) s (fun _ t => ∃ key value, Stored host.rules key value s t) := by
  refine .after (a := s.frame) (t := s) rfl ?_
  cases s.frame.stack.require entry.inputs entry.outputs with
  | error cause => exact .of_error (bind_of_error rfl) (.refl s)
  | ok =>
      refine leaving_bind (fun _ => within_spend _) fun _ t spent => ?_
      obtain ⟨pays, -⟩ := spend_ok spent
      rw [isStore]
      refine (Instruction.sstore_leaving host t).bind fun _ u ⟨key, value, stored⟩ => ?_
      exact .of_ok rfl ⟨key, value, stored.after pays⟩

/-- A step writes one slot, or it leaves the refund counter and every slot alone. -/
theorem Focus.touches_of_step {s s' : Focus} {host : Host} {fetched : Fetched} {control : Control}
    (h : s.step host fetched = .ok control s') : Touches host.rules s s' := by
  cases fetched with
  | interrupted | endOfCode | illegal =>
      cases h
      exact .nothing (s.frame.works_halted _).refund fun _ => rfl
  | instruction entry =>
      have moves := (entry.within_dispatch host s.frame.env s rfl).moves
      simp only [step] at h
      split at h
      · next t ran =>
          cases h
          have moved : Touches host.rules s t := by
            by_cases isStore : entry.opcode = .sstore
            · obtain ⟨key, value, stored⟩ := (entry.dispatch_leaving isStore host s).ok ran
              exact .slot key value stored
            · rw [endState_ok ran] at moves
              exact .nothing (moves.spares isStore).1 (moves.spares isStore).2
          -- Only the counter moves on.
          split
          · cases moved with
            | nothing refund slots => exact .nothing refund slots
            | slot key value stored => exact .slot key value ⟨stored.ledger, stored.refund, stored.gas⟩
          · exact moved
      · next cause t failed =>
          cases h
          have left : t.frame.refund = s.frame.refund ∧
              ∀ place, t.ledger.world.slot? place = s.ledger.world.slot? place := by
            by_cases isStore : entry.opcode = .sstore
            · have left := (entry.dispatch_leaving isStore host s).error failed
              exact ⟨left.refund, fun place => by rw [left.ledger]⟩
            · rw [endState_error failed] at moves
              exact moves.spares isStore
          exact .nothing ((t.frame.works_halted _).refund.trans left.1) left.2
      · cases h

end EvmEngine
