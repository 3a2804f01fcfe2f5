import EvmEngine.Engine
import EvmEngine.Proofs.Machine.Lockstep

/-!
Whole messages in lockstep, on ledgers that agree in all that can be read.
-/

namespace EvmEngine

open Effects Instruction Ledger

/-- Sessions with watches and ledgers that are related. -/
structure Session.Twins (W : Watch → Watch → Prop) (R : Ledger → Ledger → Prop) (s s' : Session) :
    Prop where
  watch : W s.watch s'.watch
  ledger : R s.ledger s'.ledger

namespace Engine

variable {host : Host} {hashes : UInt64 → Option Hash} {block : Block}
  {W : Watch → Watch → Prop} {R : Nat → Ledger → Ledger → Prop} {n : Nat} {l l' : Ledger}
  {s s' : Session}

theorem prepareRoot_parallel (bisim : Bisimulation host.rules R) (block : Block)
    (message : Message) (nonce gas : UInt64) (related : R n l l') :
    Parallel (Prepared.Twins block R n) (fun _ => R n)
      (prepareRoot host block message nonce gas l)
      (prepareRoot host block message nonce gas l') := by
  let tx : TxContext := ⟨message.caller, message.gasPrice, block⟩
  simp only [prepareRoot]
  cases message.target with
  | some callee => exact (rootCall message callee gas).prepare_parallel bisim tx 0 related
  | none =>
      refine .after (a := l) (b := l') rfl rfl ?_
      rw [bisim.balance related]
      split
      · exact .of_pure related
      · exact (rootCreate message gas).enter_parallel bisim tx 0 _ related

theorem ofOutcome_parallel {o o' : RunOutcome} (both : o.Twins W (R n) o') :
    Same (Session.Twins W (R n)) (ofOutcome o) (ofOutcome o') := by
  simp only [ofOutcome, both.result]
  cases o.result with
  | ok result => exact .ok ⟨both.watch, both.ledger⟩
  | error e => exact .error ⟨both.watch, both.ledger⟩

theorem runPrepared_parallel (bisim : Bisimulation host.rules R) (watches : Watch.Bisimulation W)
    (agree : host.AgreesOn hashes block) (prepared : Prepared) (seen : W s.watch s'.watch)
    (twins : prepared.Twins block R 0 s.ledger s'.ledger) :
    Same (Session.Twins W (R 0)) (runPrepared host prepared s)
      (runPrepared (host.withHashes hashes) prepared s') := by
  cases prepared with
  | finished result => exact .of_pure ⟨seen, twins⟩
  | enter root =>
      exact ofOutcome_parallel (Machine.run_twins bisim watches agree root seen twins.1 twins.2)

theorem ofJournaled_parallel {α : Type} {x : Journaled α} {post : α → Ledger → Ledger → Prop}
    {fails : EngineError → Ledger → Ledger → Prop} (seen : W s.watch s'.watch)
    (both : Parallel post fails (x s.ledger) (x s'.ledger)) :
    Parallel (fun a => Session.Twins W (post a)) (fun e => Session.Twins W (fails e))
      (ofJournaled x s) (ofJournaled x s') := by
  simp only [ofJournaled]
  generalize x s.ledger = r, x s'.ledger = r' at both
  cases both with
  | ok related => exact .ok ⟨seen, related⟩
  | error related => exact .error ⟨seen, related⟩

theorem runRoot_parallel (bisim : Bisimulation host.rules R) (watches : Watch.Bisimulation W)
    (agree : host.AgreesOn hashes block) (message : Message) (nonce gas : UInt64)
    (twins : s.Twins W (R 0) s') :
    Same (Session.Twins W (R 0)) (runRoot host block message nonce gas s)
      (runRoot (host.withHashes hashes) block message nonce gas s') := by
  have prepares := ofJournaled_parallel twins.watch
    (prepareRoot_parallel bisim block message nonce gas twins.ledger)
  refine prepares.bind fun prepared t t' twins => ?_
  exact runPrepared_parallel bisim watches agree prepared twins.watch twins.ledger

theorem conclude_parallel (bisim : Bisimulation host.rules R) (message : Message)
    (result : CallResult) (twins : s.Twins W (R 0) s') :
    Same (Session.Twins W (R 0)) (conclude host message result s)
      (conclude host message result s') := by
  simp only [conclude]
  split
  · refine .after (b := ()) rfl rfl (.of_pure ?_)
    exact ⟨twins.watch, bisim.deleteAll twins.ledger _⟩
  · exact .of_pure twins

theorem execute_parallel (bisim : Bisimulation host.rules R) (watches : Watch.Bisimulation W)
    (agree : host.AgreesOn hashes block) (message : Message) (intrinsic : UInt64)
    (twins : s.Twins W (R 0) s') :
    Same (Session.Twins W (R 0)) (execute host block message intrinsic s)
      (execute (host.withHashes hashes) block message intrinsic s') := by
  refine .after (a := s) (b := s') rfl rfl ?_
  rw [bisim.nonce twins.ledger]
  refine .after (b := ()) rfl rfl ?_
  have raised := bisim.modifyAccount twins.ledger message.caller fun account =>
    { account with nonce := account.nonce + 1 }
  have raised : Session.Twins W (R 0) { s with ledger := s.ledger.bumpNonce message.caller }
      { s' with ledger := s'.ledger.bumpNonce message.caller } := ⟨twins.watch, raised⟩
  refine (runRoot_parallel bisim watches agree message _ _ raised).bind fun result _ _ twins => ?_
  exact conclude_parallel bisim message result twins

/-- Inside its checkpoint a message does the same on ledgers with the same contents, if the slots have
the same initial values or these are not looked at. -/
theorem execute_alike (host : Host) (watches : Watch.Bisimulation W) (block : Block)
    (message : Message) (intrinsic : UInt64) (s s' : Session) (seen : W s.watch s'.watch)
    (remembers : s.ledger.Remembers) (remembers' : s'.ledger.Remembers)
    (world : s'.ledger.world = s.ledger.world)
    (initial : host.rules.sstoreMetering ≠ .legacy →
      ∀ a key, s'.ledger.initialValue a key = s.ledger.initialValue a key) :
    Same (Session.Twins W (Alike s.ledger.world s.ledger.saved s'.ledger.saved 0))
      (execute host block message intrinsic { s with ledger := s.ledger.checkpoint })
      (execute host block message intrinsic { s' with ledger := s'.ledger.checkpoint }) := by
  have bisim : Bisimulation host.rules (Alike s.ledger.world s.ledger.saved s'.ledger.saved) := by
    refine Alike.bisimulation fun net place => ?_
    rw [← world, remembers'.outermostValue_eq, world, remembers.outermostValue_eq]
    exact initial net place.1 place.2
  have agree : host.AgreesOn host.blockHash block := fun _ => rfl
  exact execute_parallel bisim watches agree message intrinsic
    ⟨seen, .opened world remembers remembers'⟩

/-- What runs in a checkpoint of its own does the same if that is closed alike on both ledgers. -/
theorem bracket_parallel {α : Type} {action action' : EngineM α}
    {onOk onError : Ledger → Except StateError Ledger} {R Q : Ledger → Ledger → Prop}
    (ran : Same (Session.Twins W R) (action { s with ledger := s.ledger.checkpoint })
      (action' { s' with ledger := s'.ledger.checkpoint }))
    (ok : ∀ l l', R l l' → ∃ k k', onOk l = .ok k ∧ onOk l' = .ok k' ∧ Q k k')
    (error : ∀ l l', R l l' → ∃ k k', onError l = .ok k ∧ onError l' = .ok k' ∧ Q k k') :
    Same (Session.Twins W Q) (bracket action onOk onError s) (bracket action' onOk onError s') := by
  simp only [bracket]
  generalize action { s with ledger := s.ledger.checkpoint } = r,
    action' { s' with ledger := s'.ledger.checkpoint } = r' at ran
  cases ran with
  | ok twins =>
      obtain ⟨k, k', closed, closed', related⟩ := ok _ _ twins.ledger
      simp only [onLedger, closed, closed']
      exact .ok ⟨twins.watch, related⟩
  | error twins =>
      obtain ⟨k, k', closed, closed', related⟩ := error _ _ twins.ledger
      simp only [onLedger, closed, closed']
      exact .error ⟨twins.watch, related⟩

end Engine
end EvmEngine
