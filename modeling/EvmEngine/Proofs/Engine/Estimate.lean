import EvmEngine.Proofs.Engine.Atomicity

/-!
Messages that are only asked about. A call is undone whatever it comes to, and so is each of the
calls that the search for a gas limit makes.
-/

namespace EvmEngine
namespace Engine

open Effects

variable {α β : Type}

/-- An action that leaves the world and the checkpoints as they were, whether or not it fails. -/
def Undoes (x : EngineM α) : Prop :=
  ∀ s : Session, (endState x s).ledger.world = s.ledger.world ∧
    (endState x s).ledger.saved = s.ledger.saved

theorem undoes_pure (a : α) : Undoes (pure a : EngineM α) :=
  fun _ => ⟨rfl, rfl⟩

theorem undoes_bind {x : EngineM α} {f : α → EngineM β} (first : Undoes x)
    (next : ∀ a, Undoes (f a)) : Undoes (x >>= f) := by
  intro s
  obtain ⟨world, saved⟩ := first s
  cases ran : x s with
  | error e t =>
      rw [endState_error ran] at world saved
      rw [endState_error (bind_of_error ran)]
      exact ⟨world, saved⟩
  | ok a t =>
      rw [endState_ok ran] at world saved
      obtain ⟨world', saved'⟩ := next a t
      simp only [endState, bind_of_ok ran] at world' saved' ⊢
      exact ⟨world'.trans world, saved'.trans saved⟩

theorem undoes_call (host : Host) (block : Block) (message : Message) :
    Undoes (call host block message) := by
  intro s
  cases covered : checkIntrinsic host message with
  | error e =>
      have refused : call host block message s = .error e s := by
        simp only [call, checked, covered]
      rw [endState_error refused]
      exact ⟨rfl, rfl⟩
  | ok intrinsic =>
      have admitted : call host block message s =
          bracket (execute host block message intrinsic) Ledger.rollback Ledger.rollback s := by
        simp only [call, checked, covered]
      have restores := execute_restores host block message intrinsic
        { s with ledger := s.ledger.checkpoint }
      cases ran : execute host block message intrinsic { s with ledger := s.ledger.checkpoint } with
      | error e t =>
          obtain ⟨s', called, world, saved⟩ := bracket_error Ledger.rollback ran (restores.error ran)
          rw [endState_error (admitted.trans called)]
          exact ⟨world, saved⟩
      | ok result t =>
          obtain ⟨s', called, world, saved⟩ := bracket_rollback ran (restores.ok ran).1
          rw [endState_ok (admitted.trans called)]
          exact ⟨world, saved⟩

theorem undoes_narrow (host : Host) (block : Block) (message : Message) (fuel : Nat)
    (failing passing : UInt64) : Undoes (narrow host block message fuel failing passing) := by
  induction fuel generalizing failing passing with
  | zero => exact undoes_pure passing
  | succ fuel ih =>
      rw [narrow]
      split
      · exact undoes_pure passing
      · refine undoes_bind (undoes_call host block _) fun result => ?_
        split
        · exact ih _ _
        · exact ih _ _

theorem undoes_estimateGas (host : Host) (block : Block) (message : Message) :
    Undoes (estimateGas host block message) := by
  simp only [estimateGas]
  split
  · refine undoes_bind (undoes_pure _) fun intrinsic => ?_
    refine undoes_bind (undoes_call host block message) fun result => ?_
    split
    · exact undoes_pure none
    · exact undoes_bind (undoes_narrow _ _ _ _ _ _) fun limit => undoes_pure (some limit)
  · exact fun s => ⟨rfl, rfl⟩

end Engine
end EvmEngine
