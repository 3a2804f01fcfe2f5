import EvmEngine.Proofs.Engine.Code
import EvmEngine.Proofs.Engine.Errors
import EvmEngine.Proofs.Engine.Estimate
import EvmEngine.Proofs.Machine.WellFormed

/-!
A message leaves a well-formed world well formed, whatever comes of it, and while it runs no frame
acts on an account that is not there.
-/

namespace EvmEngine
namespace Engine

open Effects World

variable {host : Host} {block : Block} {message : Message}

/-- Setting the outermost frame up clears slots at most, and only of an account without code. -/
theorem prepareRoot_renews {nonce gas : UInt64} {l : Ledger} :
    Ensures (prepareRoot host block message nonce gas) l (fun _ l' => l.world.Renews l'.world)
      (fun _ _ => True) :=
  prepareRoot_cases
    (fun _ => CallRequest.prepare_spares.mono (fun _ _ spares => .of_spared spares.1)
      fun _ _ _ => trivial)
    (.refl _) fun _ _ => CreateRequest.enter_renews

/-- The outermost frame acts on an account that exists. -/
theorem prepareRoot_inhabits {nonce gas : UInt64} {l : Ledger} :
    Ensures (prepareRoot host block message nonce gas) l
      (fun prepared l' => ∀ root, prepared = .enter root →
        (l'.world.account? root.env.address).isSome)
      (fun _ _ => True) := by
  refine prepareRoot_cases (fun callee => ⟨fun entered root same => ?_, fun _ => trivial⟩)
    (fun root same => ?_) fun address covered =>
      (CreateRequest.enter_ensures covered).mono (fun _ _ opens root same => ?_) fun _ _ _ => trivial
  · rw [same] at entered
    obtain ⟨address, runs⟩ := CallRequest.prepare_enters entered
    exact address ▸ runs
  · cases same
  · rw [same] at opens
    obtain rfl := opens.enters
    exact opens.moved.2

/-- The run that a message makes on a well-formed world starts as every run should. -/
theorem inhabited_of_prepareRoot {nonce gas : UInt64} {l l' : Ledger} {root : Frame}
    (wellFormed : l.world.WellFormed)
    (h : prepareRoot host block message nonce gas l = .ok (.enter root) l') :
    Machine.Layered Machine.Inhabited [root] l'.world l'.saved := by
  have opens := prepareRoot_ensures.ok h
  have start : Machine.Inhabited [] l.world := ⟨wellFormed, by simp⟩
  rw [opens.saved]
  exact ⟨(start.renew opens.moved (prepareRoot_renews.ok h)).enter (prepareRoot_inhabits.ok h root rfl), start⟩

theorem runRoot_wellFormed {nonce gas : UInt64} {s t : Session} {before : CallResult}
    (wellFormed : s.ledger.world.WellFormed)
    (h : runRoot host block message nonce gas s = .ok before t) : t.ledger.world.WellFormed := by
  obtain ⟨prepared, u, prepares, h⟩ := bind_eq_ok.mp h
  have set := (ofJournaled_ok prepares).1
  cases prepared with
  | finished answer =>
      obtain ⟨rfl, rfl⟩ := pure_eq_ok.mp h
      have start : Machine.Inhabited [] s.ledger.world := ⟨wellFormed, by simp⟩
      have answers : answer.Answers _ _ _ _ := prepareRoot_ensures.ok set
      exact (start.renew answers.writes (prepareRoot_renews.ok set)).wellFormed
  | enter root =>
      refine ofOutcome_keeps (P := World.WellFormed) (fun result answered => ?_) h
      exact Machine.run_wellFormed (inhabited_of_prepareRoot wellFormed set) answered

theorem transact_wellFormed {s : Session} (h : s.ledger.world.WellFormed) :
    (endState (transact host block message) s).ledger.world.WellFormed := by
  cases done : transact host block message s with
  | error e s' =>
      rw [endState_error done, world_of_error done]
      exact h
  | ok result s' =>
      obtain ⟨before, t, ran, rfl, world⟩ := transact_leaves done
      have raised : (s.ledger.checkpoint.bumpNonce message.caller).world.WellFormed :=
        Ledger.wellFormed_bumpNonce (l := s.ledger.checkpoint) h message.caller
      have left := runRoot_wellFormed raised ran
      rw [endState_ok done, world]
      split
      · exact Ledger.wellFormed_deleteAll _ left
      · exact left

/-- Where no zero is stored, each slot has its account and each account the digest of its code, the
same is true after a transaction, a call or an estimate, be the result a success, with accounts
deleted or not, a failure or an error. It is true at the head of every iteration of a run that a
message makes, and each frame that is open there acts on an account that exists. -/
theorem messages_keep_well_formed (host : Host) (block : Block) (message : Message) (s : Session)
    (h : s.ledger.world.WellFormed) :
    (endState (transact host block message) s).ledger.world.WellFormed ∧
    (endState (call host block message) s).ledger.world.WellFormed ∧
    (endState (estimateGas host block message) s).ledger.world.WellFormed ∧
    (s.ledger.checkpoint.bumpNonce message.caller).world.WellFormed ∧
    ∀ (nonce gas : UInt64) (l l' : Ledger) (root : Frame) (watch : Watch) (n : Nat) (m : Machine),
      l.world.WellFormed → prepareRoot host block message nonce gas l = .ok (.enter root) l' →
      Machine.iterate host n ⟨l', [root], watch⟩ = .more m →
      m.ledger.world.WellFormed ∧
        ∀ f ∈ m.frames, (m.ledger.world.account? f.env.address).isSome := by
  refine ⟨transact_wellFormed h, ?_, ?_,
    Ledger.wellFormed_bumpNonce (l := s.ledger.checkpoint) h message.caller, ?_⟩
  · rw [(undoes_call host block message s).1]
    exact h
  · rw [(undoes_estimateGas host block message s).1]
    exact h
  · intro nonce gas l l' root watch n m wellFormed set reached
    have inhabited := Machine.inhabited_of_iterate (m := ⟨l', [root], watch⟩)
      (inhabited_of_prepareRoot wellFormed set) reached
    exact ⟨inhabited.top.wellFormed, inhabited.top.there⟩

/-- A contract with a slot that destroys itself. -/
theorem messages_keep_well_formed_destroyed :
    let host := Host.ofRules (.ofFork .istanbul) fun _ => none
    let contract := Account.blank.withCode ⟨#[0x60, 2, 0xff]⟩
    let world := (World.empty.setAccount 7 (some contract)).setSlot (7, 0) (some 5)
    let message : Message := ⟨2, some 7, 0, ByteArray.empty, 200000, 0⟩
    let s : Session := ⟨.ofWorld world, Watch.start false none⟩
    s.ledger.world.WellFormed ∧
    ((answer (transact host .genesis message) s).toOption.map CallResult.destroyed) = some [7] ∧
    (endState (transact host .genesis message) s).ledger.world.WellFormed ∧
    ∃ root l' m, prepareRoot host .genesis message 0 100000
        (s.ledger.checkpoint.bumpNonce 2) = .ok (.enter root) l' ∧
      Machine.iterate host 1 ⟨l', [root], Watch.start false none⟩ = .more m ∧
      m.frames.map (·.env.address) = [7] ∧ m.ledger.world.WellFormed ∧
      ∀ f ∈ m.frames, (m.ledger.world.account? f.env.address).isSome := by
  intro host contract world message s
  have wellFormed : s.ledger.world.WellFormed :=
    (wellFormed_empty.setAccount 7 (Account.hashed_withCode _ _)).setSlot 0 5 (by
      rw [account?_setAccount, if_pos rfl]
      rfl)
  obtain ⟨transacted, -, -, raised, runs⟩ :=
    messages_keep_well_formed host .genesis message s wellFormed
  have found : (visit? host .genesis message 0 100000 (Watch.start false none) 1
      (s.ledger.checkpoint.bumpNonce 2)).any (fun m => m.frames.map (·.env.address) = [7]) =
        true := by decide +kernel
  obtain ⟨root, l', m, set, reached, open'⟩ := reached_of_visit? found
  rw [decide_eq_true_eq] at open'
  exact ⟨wellFormed, by decide +kernel, transacted, root, l', m, set, reached, open',
    runs 0 100000 _ l' root _ 1 m raised set reached⟩

end Engine
end EvmEngine
