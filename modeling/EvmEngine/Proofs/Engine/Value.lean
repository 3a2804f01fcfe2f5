import EvmEngine.Proofs.Engine.Gas
import EvmEngine.Proofs.Machine.History

/-!
The value of a message. Whatever frames do, the sum of all balances stays as it is; only the deletion
of the accounts that destroyed themselves takes value away, namely what they hold by then, and that
is done by a message that succeeds.
-/

namespace EvmEngine

open Effects

namespace Ledger

/-- What the accounts hold, each at the moment when it is deleted. -/
def burned (l : Ledger) : List Address → Nat
  | [] => 0
  | a :: rest => (l.balance a).toNat + (l.delete a).burned rest

theorem supply_deleteAll (l : Ledger) (accounts : List Address) :
    (accounts.foldl delete l).world.supply + l.burned accounts = l.world.supply := by
  induction accounts generalizing l with
  | nil => rfl
  | cons a rest ih =>
      have first := l.supply_delete a
      have others := ih (l.delete a)
      simp only [List.foldl_cons, burned]
      omega

end Ledger

namespace Engine

variable {host : Host} {block : Block} {message : Message}

theorem ofOutcome_writes {outcome : RunOutcome} {w : World} {t : Session} {before : CallResult}
    (writes : ∀ result, outcome.result = .ok result → result.success = true →
      World.Writes w outcome.ledger.world)
    (h : ofOutcome outcome = .ok before t) (success : before.success = true) :
    World.Writes w t.ledger.world := by
  obtain ⟨answered, rfl⟩ := ofOutcome_ok h
  exact writes before answered success

/-- An outermost frame that succeeds has only written to the world. -/
theorem runRoot_writes {nonce gas : UInt64} {s t : Session} {before : CallResult}
    (h : runRoot host block message nonce gas s = .ok before t) (success : before.success = true) :
    World.Writes s.ledger.world t.ledger.world := by
  obtain ⟨prepared, u, prepares, h⟩ := bind_eq_ok.mp h
  have follows := (ofJournaled_ensures prepareRoot_ensures).ok prepares
  cases prepared with
  | finished answer =>
      obtain ⟨rfl, rfl⟩ := pure_eq_ok.mp h
      exact follows.succeeded success
  | enter root =>
      obtain ⟨-, -, held⟩ := follows.enters
      refine ofOutcome_writes (fun result answered => ?_) h success
      exact Machine.run_writes follows.saved follows.moved held answered

/-- Where the result is a success, what it names is deleted from what its frames have left. -/
theorem conclude_success (host : Host) (message : Message) {result : CallResult} (s : Session)
    (success : result.success = true) :
    conclude host message result s = .ok (settle host.rules message.gasLimit result)
      { s with ledger := result.destroyed.foldl Ledger.delete s.ledger } := by
  simp only [conclude]
  rw [if_pos success]
  rfl

/-- What a message that succeeds does last: from what its outermost frame has left, the accounts that
destroyed themselves are deleted one after the other, and what they hold by then is all the value
that is lost. -/
structure Deletes (before : CallResult) (left : Ledger) (result : CallResult) (w w' : World) :
    Prop where
  success : before.success = true
  destroyed : result.destroyed = before.destroyed
  world : w' = (result.destroyed.foldl Ledger.delete left).world
  supply : w'.supply + left.burned result.destroyed = w.supply

theorem deletes_of_execute {s t : Session} {result : CallResult}
    (h : execute host block message (intrinsicGas host message)
      { s with ledger := s.ledger.checkpoint } = .ok result t)
    (success : result.success = true) :
    ∃ before u, runRoot host block message (s.ledger.nonce message.caller)
        (message.gasLimit - intrinsicGas host message)
        ⟨s.ledger.checkpoint.bumpNonce message.caller, s.watch⟩ = .ok before u ∧
      Deletes before u.ledger result s.ledger.world t.ledger.world := by
  obtain ⟨before, u, ran, concludes, rfl⟩ := execute_ok h
  have succeeded : before.success = true := success
  cases concludes.symm.trans (conclude_success host message u succeeded)
  have kept := (runRoot_writes ran succeeded).supply
  have deleted := u.ledger.supply_deleteAll before.destroyed
  refine ⟨before, u, ran, succeeded, rfl, rfl, ?_⟩
  show (before.destroyed.foldl Ledger.delete u.ledger).world.supply +
    u.ledger.burned before.destroyed = _
  rw [deleted, kept]
  exact s.ledger.checkpoint.supply_bumpNonce message.caller

/-- A transaction never adds to the sum of all balances. It takes away what the accounts that
destroyed themselves hold when they are deleted, and that only where it succeeds. -/
theorem value_conserved (host : Host) (block : Block) (message : Message) (s : Session) :
    (∀ e s', transact host block message s = .error e s' →
      s'.ledger.world.supply = s.ledger.world.supply) ∧
    ∀ result s', transact host block message s = .ok result s' →
      (result.success = false → s'.ledger.world.supply = s.ledger.world.supply) ∧
      (result.success = true →
        ∃ before t, runRoot host block message (s.ledger.nonce message.caller)
            (message.gasLimit - intrinsicGas host message)
            ⟨s.ledger.checkpoint.bumpNonce message.caller, s.watch⟩ = .ok before t ∧
          Deletes before t.ledger result s.ledger.world s'.ledger.world) ∧
      s'.ledger.world.supply ≤ s.ledger.world.supply ∧
      (result.destroyed = [] → s'.ledger.world.supply = s.ledger.world.supply) := by
  simp only [transact, checked]
  cases covered : checkIntrinsic host message with
  | error e =>
      refine ⟨fun e' s' done => ?_, fun result s' done => ?_⟩ <;> cases done
      rfl
  | ok intrinsic =>
      obtain ⟨-, rfl⟩ := checkIntrinsic_ok covered
      have restores := execute_restores host block message (intrinsicGas host message)
        { s with ledger := s.ledger.checkpoint }
      dsimp only
      cases ran : execute host block message (intrinsicGas host message)
          { s with ledger := s.ledger.checkpoint } with
      | error e t =>
          obtain ⟨s₁, transacted, world, -⟩ :=
            bracket_error (w := s.ledger.world) Ledger.commit ran (restores.error ran)
          rw [transacted]
          refine ⟨fun e' s' done => ?_, fun result s' done => ?_⟩ <;> cases done
          rw [world]
      | ok result t =>
          obtain ⟨saved, failed⟩ := restores.ok ran
          obtain ⟨s₁, transacted, world, -⟩ := bracket_commit ran saved
          rw [transacted]
          refine ⟨fun e' s' done => ?_, fun result' s' done => ?_⟩ <;> cases done
          cases success : result.success with
          | false =>
              have same : s₁.ledger.world.supply = s.ledger.world.supply := by
                rw [world, failed success]
                exact s.ledger.checkpoint.supply_bumpNonce message.caller
              refine ⟨fun _ => same, fun succeeded => ?_, Nat.le_of_eq same, fun _ => same⟩
              cases succeeded
          | true =>
              obtain ⟨before, u, root, deletes⟩ := deletes_of_execute ran success
              rw [← world] at deletes
              have lost := deletes.supply
              refine ⟨fun unsuccessful => ?_, fun _ => ⟨before, u, root, deletes⟩, by omega,
                fun none => ?_⟩
              · cases unsuccessful
              · rwa [none, Ledger.burned, Nat.add_zero] at lost

end Engine
end EvmEngine
