import EvmEngine.Proofs.Engine.Gas
import EvmEngine.Proofs.Machine.Termination

/-!
What a message can fail with. Under the prices of an upgrade the only errors that reach the host are
a gas limit below the intrinsic cost and a payment to an account whose balance has no room for it,
and the latter takes balances that do not fit a word together.
-/

namespace EvmEngine
namespace Engine

open Effects

variable {host : Host} {block : Block} {message : Message}

theorem ofOutcome_ensures {outcome : RunOutcome} {fails : EngineError → Prop}
    {x : EngineM CallResult} {s : Session}
    (failed : ∀ e, outcome.result = .error e → fails e) (h : x s = ofOutcome outcome) :
    Ensures x s (fun _ _ => True) (fun e _ => fails e) := by
  simp only [ofOutcome] at h
  cases ended : outcome.result with
  | error e =>
      simp only [ended] at h
      exact .of_error h (failed e ended)
  | ok result =>
      simp only [ended] at h
      exact .of_ok h trivial

/-- The run that a message makes starts as every run should. -/
theorem sound_of_prepareRoot {nonce gas : UInt64} {l l' : Ledger} {root : Frame}
    (h : prepareRoot host block message nonce gas l = .ok (.enter root) l') (watch : Watch) :
    Machine.Sound l.world l.saved ⟨l', [root], watch⟩ := by
  have opens := prepareRoot_ensures.ok h
  obtain ⟨fresh, -, held⟩ := opens.enters
  refine Machine.sound_root ?_ opens.saved opens.moved held
  rw [fresh]
  exact Nat.zero_le _

theorem runRoot_overflows {nonce gas : UInt64} {s : Session}
    (covers : host.rules.gas.CoversStipend) (charges : host.rules.gas.Charges) :
    Ensures (runRoot host block message nonce gas) s (fun _ _ => True)
      (fun e _ => e.Overflows s.ledger.world) := by
  cases set : prepareRoot host block message nonce gas s.ledger with
  | error e l =>
      have prepares : ofJournaled (prepareRoot host block message nonce gas) s =
          .error e { s with ledger := l } := by simp only [ofJournaled, set]
      exact .of_error (bind_of_error prepares) (prepareRoot_ensures.error set).2
  | ok prepared l =>
      have prepares : ofJournaled (prepareRoot host block message nonce gas) s =
          .ok prepared { s with ledger := l } := by simp only [ofJournaled, set]
      refine .after prepares ?_
      cases prepared with
      | finished result => exact .of_ok rfl trivial
      | enter root =>
          have sound := sound_of_prepareRoot set s.watch
          exact ofOutcome_ensures (fun _ => Machine.run_overflows covers charges sound) rfl

theorem execute_overflows {intrinsic : UInt64} {s : Session}
    (covers : host.rules.gas.CoversStipend) (charges : host.rules.gas.Charges) :
    Ensures (execute host block message intrinsic) s (fun _ _ => True)
      (fun e _ => e.Overflows s.ledger.world) := by
  refine .of_eq (execute_eq host block message intrinsic s) ?_
  refine ((runRoot_overflows covers charges).mono (fun _ _ done => done) fun e _ large => ?_).bind
    fun result t _ => ?_
  · exact large.before (.single (.raise s.ledger message.caller 1))
  · obtain ⟨t', concluded, -⟩ := conclude_ok host message result t
    exact .of_ok concluded trivial

theorem transact_overflows {intrinsic : UInt64} {s : Session} {e : EngineError}
    (covers : host.rules.gas.CoversStipend) (charges : host.rules.gas.Charges)
    (covered : checkIntrinsic host message = .ok intrinsic)
    (failed : answer (transact host block message) s = .error e) :
    e.Overflows s.ledger.world := by
  rw [(answer_of_covered block s covered).1, answer] at failed
  split at failed
  · cases failed
  · next ran =>
      cases failed
      have large := (execute_overflows covers charges).error ran
      exact large

theorem checkIntrinsic_eq (host : Host) (message : Message) :
    checkIntrinsic host message =
      if message.gasLimit < intrinsicGas host message then
        .error (.intrinsicGas (intrinsicGas host message) message.gasLimit)
      else .ok (intrinsicGas host message) := rfl

end Engine
end EvmEngine
