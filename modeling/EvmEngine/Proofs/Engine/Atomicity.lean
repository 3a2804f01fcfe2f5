import EvmEngine.Engine
import EvmEngine.Proofs.Machine.Checkpoints

/-!
A message leaves all of its effects or none. Whatever happens inside, the ledger that comes back has
the checkpoints that were open before; where the message fails, nothing is left but the raised nonce
of the sender; and where there is no result at all, or the result is only asked for, nothing.
-/

namespace EvmEngine
namespace Engine

open Effects

variable {host : Host} {block : Block} {message : Message}

/-- Whatever every call ensures, every creation at whatever address that can be paid for, and the
refusal of one that cannot, the outermost frame ensures. The address is a variable, so that no digest
is ever computed. -/
theorem prepareRoot_cases {nonce gas : UInt64} {l : Ledger} {post : Prepared → Ledger → Prop}
    {fails : EngineError → Ledger → Prop}
    (call : ∀ callee, Ensures ((rootCall message callee gas).prepare host
      ⟨message.caller, message.gasPrice, block⟩ 0) l post fails)
    (refusal : post (.finished (.refusal gas)) l)
    (create : ∀ address, message.value ≤ l.balance message.caller →
      Ensures ((rootCreate message gas).enter host
        ⟨message.caller, message.gasPrice, block⟩ 0 address) l post fails) :
    Ensures (prepareRoot host block message nonce gas) l post fails := by
  rw [prepareRoot]
  split
  · exact call _
  · refine .after (a := l) (t := l) rfl ?_
    split
    · exact .of_ok rfl refusal
    · next covered => exact create _ (BitVec.not_lt.mp covered)

/-- A root frame is a new one at depth zero, with all the gas there is; only a payment can keep it
from being set up. -/
theorem prepareRoot_ensures {nonce gas : UInt64} {l : Ledger} :
    Ensures (prepareRoot host block message nonce gas) l
      (fun prepared l' => prepared.Follows gas (World.Writes l.world)
        (fun f w => f = Frame.start f.env f.target f.code gas ∧ f.env.depth = 0 ∧ f.Held w) l l')
      (fun e l' => (l'.world = l.world ∧ l'.saved = l.saved) ∧ e.Overflows l.world) := by
  refine prepareRoot_cases (fun callee => ?_) ?_ fun address covered => ?_
  · refine CallRequest.prepare_ensures.mono (fun _ _ follows => ?_) fun _ _ failed => failed
    refine follows.mono (fun _ moved => moved.writes) ?_
    rintro f w - ⟨-, code, rfl⟩
    exact ⟨rfl, rfl, fun a held => by cases held⟩
  · refine ⟨rfl, fun _ => rfl, ?_, CallResult.accounts_refusal _, ⟨rfl, rfl, rfl⟩⟩
    intro success
    cases success
  · refine (CreateRequest.enter_ensures covered).mono (fun _ _ follows => ?_) fun _ _ failed => failed
    refine follows.mono (fun _ made => made.1) ?_
    rintro f w made rfl
    refine ⟨rfl, rfl, fun a held => ?_⟩
    cases held
    exact made.2

/-- The machine at the head of an iteration of the run that a message makes on a ledger, where there
is a frame to be run and the run gets that far. -/
def visit? (host : Host) (block : Block) (message : Message) (nonce gas : UInt64) (watch : Watch)
    (n : Nat) (l : Ledger) : Option Machine :=
  match prepareRoot host block message nonce gas l with
  | .ok (.enter root) l' => Machine.after? host n ⟨l', [root], watch⟩
  | .ok (.finished _) _ | .error _ _ => none

theorem reached_of_visit? {nonce gas : UInt64} {watch : Watch} {n : Nat} {l : Ledger}
    {test : Machine → Bool}
    (h : (visit? host block message nonce gas watch n l).any test = true) :
    ∃ root l' m, prepareRoot host block message nonce gas l = .ok (.enter root) l' ∧
      Machine.iterate host n ⟨l', [root], watch⟩ = .more m ∧ test m = true := by
  simp only [visit?] at h
  split at h
  · next root l' set =>
      obtain ⟨m, reached, passes⟩ := Machine.reached_of_after? h
      exact ⟨root, l', m, set, reached, passes⟩
  · cases h
  · cases h

theorem ofJournaled_ok {α : Type} {x : Journaled α} {a : α} {s t : Session}
    (h : ofJournaled x s = .ok a t) : x s.ledger = .ok a t.ledger ∧ t.watch = s.watch := by
  simp only [ofJournaled] at h
  split at h <;> cases h
  exact ⟨by assumption, rfl⟩

theorem ofJournaled_ensures {α : Type} {x : Journaled α} {s : Session}
    {post : α → Ledger → Prop} {fails : EngineError → Ledger → Prop}
    (h : Ensures x s.ledger post fails) :
    Ensures (ofJournaled x) s (fun a s' => post a s'.ledger) (fun e s' => fails e s'.ledger) := by
  cases ran : x s.ledger with
  | ok a l =>
      have done : ofJournaled x s = .ok a { s with ledger := l } := by
        simp only [ofJournaled, ran]
      exact .of_ok done (h.ok ran)
  | error e l =>
      have failed : ofJournaled x s = .error e { s with ledger := l } := by
        simp only [ofJournaled, ran]
      exact .of_error failed (h.error ran)

/-- An action that leaves the checkpoints as given, and the world as well where its result is a
failure. -/
def Restores (w : World) (base : List World) (x : EngineM CallResult) (s : Session) : Prop :=
  Ensures x s
    (fun result s' => s'.ledger.saved = base ∧ (result.success = false → s'.ledger.world = w))
    (fun _ s' => s'.ledger.saved = base)

theorem ofOutcome_restores {outcome : RunOutcome} {w : World} {base : List World}
    (saved : outcome.ledger.saved = base)
    (world : outcome.result.toOption.all (!·.success) = true → outcome.ledger.world = w)
    {x : EngineM CallResult} {s : Session} (h : x s = ofOutcome outcome) :
    Restores w base x s := by
  -- The outcome is a variable, so that the number of iterations of a run is never computed.
  simp only [ofOutcome] at h
  cases ended : outcome.result with
  | error e =>
      simp only [ended] at h
      exact .of_error h saved
  | ok result =>
      simp only [ended] at h
      refine .of_ok h ⟨saved, fun failed => world ?_⟩
      simp only [ended, Except.toOption, Option.all_some, failed, Bool.not_false]

theorem runPrepared_restores {gas : UInt64} {l : Ledger} {s : Session} {prepared : Prepared}
    {moved : World → Prop} {enters : Frame → World → Prop}
    (follows : prepared.Follows gas moved enters l s.ledger) :
    Restores l.world l.saved (runPrepared host prepared) s := by
  cases prepared with
  | finished result => exact .of_ok rfl ⟨follows.saved, follows.failed⟩
  | enter root =>
      obtain ⟨saved, world⟩ := Machine.run_restores host root s.watch follows.saved
      exact ofOutcome_restores saved world rfl

/-- The outermost frame leaves the checkpoints as they were, and a failure nothing else. -/
theorem runRoot_restores {nonce gas : UInt64} {s : Session} :
    Restores s.ledger.world s.ledger.saved (runRoot host block message nonce gas) s := by
  have set := ofJournaled_ensures (s := s)
    (@prepareRoot_ensures host block message nonce gas s.ledger)
  exact (set.mono (fun _ _ follows => follows) fun _ _ failed => failed.1.2).bind
    fun prepared t follows => runPrepared_restores follows

theorem conclude_ok (host : Host) (message : Message) (result : CallResult) (s : Session) :
    ∃ s', conclude host message result s = .ok (settle host.rules message.gasLimit result) s' ∧
      s'.ledger.saved = s.ledger.saved ∧ (result.success = false → s' = s) := by
  simp only [conclude]
  cases result.success with
  | true =>
      refine ⟨_, rfl, ?_, fun failed => ?_⟩
      · exact Ledger.saved_foldl (fun l a => l.saved_delete a) result.destroyed s.ledger
      · cases failed
  | false => exact ⟨s, rfl, rfl, fun _ => rfl⟩

/-- A message raises the nonce of the sender, runs its outermost frame and concludes. -/
theorem execute_eq (host : Host) (block : Block) (message : Message) (intrinsic : UInt64)
    (s : Session) :
    execute host block message intrinsic s = (do
      let result ← runRoot host block message (s.ledger.nonce message.caller)
        (message.gasLimit - intrinsic)
      conclude host message result) { s with ledger := s.ledger.bumpNonce message.caller } := rfl

/-- Inside its checkpoint a message that fails has raised the nonce of the sender and done nothing
else. -/
theorem execute_restores (host : Host) (block : Block) (message : Message) (intrinsic : UInt64)
    (s : Session) :
    Restores (s.ledger.bumpNonce message.caller).world s.ledger.saved
      (execute host block message intrinsic) s := by
  have base := s.ledger.saved_bumpNonce message.caller
  rw [← base]
  refine .of_eq (execute_eq host block message intrinsic s) ?_
  refine Ensures.bind runRoot_restores fun result t restored => ?_
  obtain ⟨saved, world⟩ := restored
  obtain ⟨t', concluded, kept, same⟩ := conclude_ok host message result t
  refine .of_ok concluded ⟨kept.trans saved, fun failed => ?_⟩
  rw [same failed]
  exact world failed

section
variable {α : Type} {action : EngineM α} {s t : Session} {w : World} {base : List World}

theorem bracket_error (onOk : Ledger → Except StateError Ledger) {e : EngineError}
    (ran : action { s with ledger := s.ledger.checkpoint } = .error e t)
    (inside : t.ledger.saved = w :: base) :
    ∃ s', bracket action onOk Ledger.rollback s = .error e s' ∧ s'.ledger.world = w ∧
      s'.ledger.saved = base := by
  obtain ⟨l, done, world, saved, -⟩ := Ledger.rollback_of_saved inside
  exact ⟨{ t with ledger := l }, by simp only [bracket, ran, onLedger, done], world, saved⟩

theorem bracket_commit {a : α}
    (ran : action { s with ledger := s.ledger.checkpoint } = .ok a t)
    (inside : t.ledger.saved = w :: base) :
    ∃ s', bracket action Ledger.commit Ledger.rollback s = .ok a s' ∧
      s'.ledger.world = t.ledger.world ∧ s'.ledger.saved = base := by
  obtain ⟨l, done, world, saved, -⟩ := Ledger.commit_of_saved inside
  exact ⟨{ t with ledger := l }, by simp only [bracket, ran, onLedger, done], world, saved⟩

theorem bracket_rollback {a : α}
    (ran : action { s with ledger := s.ledger.checkpoint } = .ok a t)
    (inside : t.ledger.saved = w :: base) :
    ∃ s', bracket action Ledger.rollback Ledger.rollback s = .ok a s' ∧
      s'.ledger.world = w ∧ s'.ledger.saved = base := by
  obtain ⟨l, done, world, saved, -⟩ := Ledger.rollback_of_saved inside
  exact ⟨{ t with ledger := l }, by simp only [bracket, ran, onLedger, done], world, saved⟩

end

/-- Closing the checkpoint of a message cannot fail, so that a transaction and a call answer what is
answered inside it. -/
theorem answer_of_covered {intrinsic : UInt64} (block : Block) (s : Session)
    (covered : checkIntrinsic host message = .ok intrinsic) :
    answer (transact host block message) s = answer (execute host block message intrinsic)
        { s with ledger := s.ledger.checkpoint } ∧
      answer (call host block message) s = answer (execute host block message intrinsic)
        { s with ledger := s.ledger.checkpoint } := by
  have restores := execute_restores host block message intrinsic
    { s with ledger := s.ledger.checkpoint }
  simp only [answer, transact, call, checked, covered]
  cases ran : execute host block message intrinsic { s with ledger := s.ledger.checkpoint } with
  | error e t =>
      obtain ⟨s₁, transacted, -⟩ := bracket_error Ledger.commit ran (restores.error ran)
      obtain ⟨s₂, called, -⟩ := bracket_error Ledger.rollback ran (restores.error ran)
      rw [transacted, called]
      exact ⟨rfl, rfl⟩
  | ok result t =>
      obtain ⟨s₁, transacted, -⟩ := bracket_commit ran (restores.ok ran).1
      obtain ⟨s₂, called, -⟩ := bracket_rollback ran (restores.ok ran).1
      rw [transacted, called]
      exact ⟨rfl, rfl⟩

theorem world_bumpNonce (l : Ledger) (a : Address) :
    (l.bumpNonce a).world = l.world.setNonce a (l.nonce a + 1) := by
  simp only [Ledger.bumpNonce, Ledger.modifyAccount, Ledger.world_putAccount, World.setNonce,
    World.modifyAccount, Ledger.nonce]
  cases l.world.account? a <;> rfl

/-- What a message leaves behind. A transaction that gives no result leaves nothing, one that fails
only the raised nonce, which counts up as a machine integer; a call leaves nothing and answers what
the transaction would. -/
theorem messages_atomic (host : Host) (block : Block) (message : Message) (s : Session) :
    (∀ e s', transact host block message s = .error e s' →
      s'.ledger.world = s.ledger.world ∧ s'.ledger.depth = s.ledger.depth) ∧
    (∀ result s', transact host block message s = .ok result s' → result.success = false →
      s'.ledger.world =
          s.ledger.world.setNonce message.caller (s.ledger.nonce message.caller + 1) ∧
        s'.ledger.depth = s.ledger.depth) ∧
    (endState (call host block message) s).ledger.world = s.ledger.world ∧
    (endState (call host block message) s).ledger.depth = s.ledger.depth ∧
    answer (call host block message) s = answer (transact host block message) s := by
  simp only [← Ledger.length_saved]
  cases covered : checkIntrinsic host message with
  | error e =>
      have refused (action : UInt64 → EngineM CallResult) :
          checked host message action s = .error e s := by
        simp only [checked, covered]
      simp only [transact, call, endState, answer, refused]
      refine ⟨fun e' s' done => ?_, fun result s' done => ?_, by simp⟩ <;> cases done
      exact ⟨rfl, rfl⟩
  | ok intrinsic =>
      have admitted (action : UInt64 → EngineM CallResult) :
          checked host message action s = action intrinsic s := by
        simp only [checked, covered]
      have restores := execute_restores host block message intrinsic
        { s with ledger := s.ledger.checkpoint }
      simp only [transact, call, endState, answer, admitted]
      cases ran : execute host block message intrinsic { s with ledger := s.ledger.checkpoint } with
      | error e t =>
          have saved := restores.error ran
          obtain ⟨s₁, transacted, world₁, saved₁⟩ := bracket_error Ledger.commit ran saved
          obtain ⟨s₂, called, world₂, saved₂⟩ := bracket_error Ledger.rollback ran saved
          rw [transacted, called]
          refine ⟨fun e' s' done => ?_, fun result s' done => ?_, world₂, ?_, rfl⟩
          · cases done
            exact ⟨world₁, congrArg List.length saved₁⟩
          · cases done
          · exact congrArg List.length saved₂
      | ok result t =>
          obtain ⟨saved, world⟩ := restores.ok ran
          obtain ⟨s₁, transacted, world₁, saved₁⟩ := bracket_commit ran saved
          obtain ⟨s₂, called, world₂, saved₂⟩ := bracket_rollback ran saved
          rw [transacted, called]
          refine ⟨fun e' s' done => ?_, fun answer s' done failed => ?_, world₂, ?_, rfl⟩
          · cases done
          · cases done
            refine ⟨world₁.trans ((world failed).trans ?_), congrArg List.length saved₁⟩
            exact world_bumpNonce s.ledger.checkpoint message.caller
          · exact congrArg List.length saved₂

end Engine
end EvmEngine
