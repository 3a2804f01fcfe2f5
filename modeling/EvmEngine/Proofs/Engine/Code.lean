import EvmEngine.Proofs.Engine.Value
import EvmEngine.Proofs.Machine.Code

/-!
Code that is deployed stays as it is. A message takes code away only with the whole account, when it
deletes the accounts that destroyed themselves; and whatever address a creation leads to, it leaves an
account alone that has a nonce or code by then.
-/

namespace EvmEngine
namespace Engine

open Effects World

variable {host : Host} {block : Block} {message : Message}

theorem prepareRoot_spares {nonce gas : UInt64} {l : Ledger} :
    Ensures (prepareRoot host block message nonce gas) l
      (fun prepared l' => (∀ a, l.world.Taken a → Spared a l.world l'.world) ∧
        ∀ root a, prepared = .enter root → root.target = .account a → ¬ l.world.Taken a)
      (fun _ _ => True) := by
  refine prepareRoot_cases (fun callee => ?_) ⟨fun a _ => .refl a _, fun root a same target => ?_⟩
    fun address covered => ?_
  · refine CallRequest.prepare_spares.mono (fun prepared l' prepares =>
      ⟨fun a _ => prepares.1 a, fun root a same target => ?_⟩) fun _ _ _ => trivial
    exact absurd target (prepares.2 root a same)
  · cases same
  · refine CreateRequest.enter_spares.mono (fun _ _ entered =>
      ⟨entered.1, fun root a same target => ?_⟩) fun _ _ _ => trivial
    obtain ⟨into, free⟩ := entered.2 root same
    cases into.symm.trans target
    exact free

/-- The run that a message makes protects the code that is there. -/
theorem protects_of_prepareRoot {nonce gas : UInt64} {start : World} {l l' : Ledger} {root : Frame}
    (kept : start.KeepsCode l.world)
    (h : prepareRoot host block message nonce gas l = .ok (.enter root) l') :
    Machine.Protects start [root] l'.world l'.saved := by
  obtain ⟨spared, free⟩ := prepareRoot_spares.ok h
  exact Machine.protects_root (prepareRoot_ensures.ok h).saved (kept.trans (.of_spared spared)) kept
    fun a target => free root a rfl target

theorem ofOutcome_keeps {P : World → Prop} {outcome : RunOutcome} {t : Session}
    {before : CallResult} (kept : ∀ result, outcome.result = .ok result → P outcome.ledger.world)
    (h : ofOutcome outcome = .ok before t) : P t.ledger.world := by
  obtain ⟨answered, rfl⟩ := ofOutcome_ok h
  exact kept before answered

theorem runRoot_keepsCode {nonce gas : UInt64} {s t : Session} {before : CallResult}
    (h : runRoot host block message nonce gas s = .ok before t) :
    s.ledger.world.KeepsCode t.ledger.world := by
  obtain ⟨prepared, u, prepares, h⟩ := bind_eq_ok.mp h
  cases prepared with
  | finished answer =>
      obtain ⟨rfl, rfl⟩ := pure_eq_ok.mp h
      exact .of_spared ((ofJournaled_ensures prepareRoot_spares).ok prepares).1
  | enter root =>
      have set := (ofJournaled_ok prepares).1
      refine ofOutcome_keeps (P := s.ledger.world.KeepsCode) (fun result answered => ?_) h
      exact Machine.run_keepsCode (protects_of_prepareRoot (.refl _) set) answered

/-- A transaction that gives no result leaves the world as it was. -/
theorem world_of_error {s s' : Session} {e : EngineError}
    (h : transact host block message s = .error e s') : s'.ledger.world = s.ledger.world := by
  simp only [transact, checked] at h
  split at h
  · next intrinsic covered =>
      have restores := execute_restores host block message intrinsic
        { s with ledger := s.ledger.checkpoint }
      cases ran : execute host block message intrinsic { s with ledger := s.ledger.checkpoint } with
      | ok result t =>
          obtain ⟨s₁, transacted, -⟩ := bracket_commit ran (restores.ok ran).1
          cases h.symm.trans transacted
      | error e t =>
          obtain ⟨s₁, transacted, world, -⟩ := bracket_error Ledger.commit ran (restores.error ran)
          cases h.symm.trans transacted
          exact world
  · cases h
    rfl

/-- A transaction that gives a result has run its outermost frame, and leaves the world as that left
it, without the accounts that destroyed themselves. -/
theorem transact_leaves {s s' : Session} {result : CallResult}
    (h : transact host block message s = .ok result s') :
    ∃ before t, runRoot host block message (s.ledger.nonce message.caller)
        (message.gasLimit - intrinsicGas host message)
        ⟨s.ledger.checkpoint.bumpNonce message.caller, s.watch⟩ = .ok before t ∧
      result = settle host.rules message.gasLimit before ∧
      s'.ledger.world = if result.success then
        (result.destroyed.foldl Ledger.delete t.ledger).world else t.ledger.world := by
  simp only [transact, checked] at h
  split at h
  · next intrinsic covered =>
      obtain ⟨-, rfl⟩ := checkIntrinsic_ok covered
      obtain ⟨u, executed⟩ := bracket_ok h
      obtain ⟨before, t, ran, concludes, rfl⟩ := execute_ok executed
      refine ⟨before, t, ran, rfl, ?_⟩
      obtain ⟨s₁, transacted, world, -⟩ := bracket_commit executed
        ((execute_restores host block message (intrinsicGas host message)
          { s with ledger := s.ledger.checkpoint }).ok executed).1
      cases h.symm.trans transacted
      rw [world]
      show _ = if before.success then (before.destroyed.foldl Ledger.delete t.ledger).world else _
      split
      · next success =>
          cases concludes.symm.trans (conclude_success host message t success)
          rfl
      · next failed =>
          obtain ⟨t', concluded, -, same⟩ := conclude_ok host message before t
          cases concludes.symm.trans concluded
          rw [same (Bool.eq_false_iff.mpr failed)]
  · cases h

theorem code_transact {s s' : Session} {result : CallResult} {a : Address}
    (h : transact host block message s = .ok result s') (has : (s.ledger.code a).isEmpty = false) :
    if result.success ∧ a ∈ result.destroyed then s'.ledger.world.account? a = none
    else s'.ledger.code a = s.ledger.code a := by
  obtain ⟨before, t, ran, -, world⟩ := transact_leaves h
  have raised : s.ledger.world.KeepsCode (s.ledger.checkpoint.bumpNonce message.caller).world :=
    .of_same (s.ledger.checkpoint.code_bumpNonce message.caller)
  have later := runRoot_keepsCode ran
  have kept : t.ledger.world.code a = s.ledger.world.code a := raised.trans later a has
  have code : s'.ledger.code a = s'.ledger.world.code a := rfl
  split
  · next destroyed =>
      rw [world, if_pos destroyed.1]
      exact (Ledger.absent_deleteAll destroyed.2 t.ledger).account
  · next spared =>
      rw [code, world]
      split
      · next success =>
          have other : a ∉ result.destroyed := fun member => spared ⟨success, member⟩
          exact (Ledger.spared_deleteAll other t.ledger).code.trans kept
      · exact kept

/-- Code stays as it is until its account destroys itself in a message that succeeds. Whatever address
a creation is for, it leaves every account alone that has a nonce or code when it is entered, which
for one below another frame is after the nonce of the creator is raised; and a frame puts no code into
an account that had a nonce or code when the frame was entered. -/
theorem code_immutable (host : Host) (block : Block) (message : Message) (s : Session) :
    (∀ e s', transact host block message s = .error e s' →
      ∀ a, s'.ledger.code a = s.ledger.code a) ∧
    (∀ result s', transact host block message s = .ok result s' →
      ∀ a, (s.ledger.code a).isEmpty = false →
        if result.success ∧ a ∈ result.destroyed then s'.ledger.world.account? a = none
        else s'.ledger.code a = s.ledger.code a) ∧
    (∀ (r : CreateRequest) (tx : TxContext) (depth : UInt64) (address : Address) (l : Ledger)
      (a : Address), l.world.Taken a →
      Spared a l.world (endState (r.enter host tx depth address) l).world ∧
      (a = address → r.enter host tx depth address l =
        .ok (.finished (.ofFault r.gas (.addressCollision a))) l)) ∧
    (∀ (r : CreateRequest) (tx : TxContext) (depth : UInt64) (l : Ledger) (a : Address),
      (r.opening host.rules depth l).world.Taken a →
      Spared a (r.opening host.rules depth l).world (endState (r.prepare host tx depth) l).world) ∧
    ∀ (nonce gas : UInt64) (l l' : Ledger) (root : Frame) (watch : Watch) (n : Nat) (m : Machine)
      (f : Frame) (below : List Frame),
      prepareRoot host block message nonce gas l = .ok (.enter root) l' →
      Machine.iterate host n ⟨l', [root], watch⟩ = .more m → m.frames = f :: below →
      ∃ w rest, m.ledger.saved = w :: rest ∧ ∀ a, w.Taken a →
        f.target ≠ .account a ∧
        ((endState (f.complete host) m.ledger).world = w ∨
          Spared a m.ledger.world (endState (f.complete host) m.ledger).world) := by
  refine ⟨fun e s' failed a => ?_, fun result s' done a has => code_transact done has,
    fun r tx depth address l a taken => ⟨CreateRequest.spared_enter taken, ?_⟩,
    fun r tx depth l a taken => CreateRequest.spared_prepare taken, ?_⟩
  · simp only [Ledger.code, world_of_error failed]
  · rintro rfl
    exact CreateRequest.enter_taken taken
  · intro nonce gas l l' root watch n m f below set reached frames
    have protects := Machine.protects_of_iterate (m := ⟨l', [root], watch⟩)
      (protects_of_prepareRoot (.refl _) set) reached
    rw [frames] at protects
    obtain ⟨w, rest, saved⟩ := protects.saved_eq
    rw [saved] at protects
    refine ⟨w, rest, saved, fun a taken => ?_⟩
    have other : f.target ≠ .account a := fun target => protects.2.1 a target taken
    exact ⟨other, Frame.spared_complete saved other⟩

end Engine
end EvmEngine
