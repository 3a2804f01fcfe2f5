import EvmEngine.Proofs.Engine.Errors
import EvmEngine.Proofs.Engine.Value
import EvmEngine.Proofs.Machine.Creation

/-!
Every creation ends in one of two ways, whether a contract asks for it or it is what a message is
for: an account with code that is paid for by the byte, or nothing but the raised nonce. Nonces count
up as machine integers, and only a credit that does not fit keeps a creation from its end.
-/

namespace EvmEngine

open Effects

theorem Ledger.account?_deleteAll {accounts : List Address} {a : Address} (other : a ∉ accounts)
    (l : Ledger) : (accounts.foldl delete l).world.account? a = l.world.account? a := by
  induction accounts generalizing l with
  | nil => rfl
  | cons b rest ih =>
      obtain ⟨first, later⟩ := not_or.mp (List.mem_cons.not.mp other)
      refine (ih later (l.delete b)).trans ?_
      rw [delete, world_putAccount, World.account?_setAccount, if_neg (Ne.symm first)]
      exact account?_foldl_putSlot _ l a

namespace Engine

open Machine

variable {host : Host} {block : Block} {message : Message}

/-- The init code of a creation was run by itself and has ended as `c`, in the world `left`. -/
def InitRan (host : Host) (r : CreateRequest) (tx : TxContext) (address : Address) (l : Ledger)
    (watch : Watch) (c : Frame) (left : World) : Prop :=
  ∃ root l' n m, r.enter host tx 0 address l = .ok (.enter root) l' ∧
    iterate host n ⟨l', [root], watch⟩ = .more m ∧ Ended (r.origin tx 0 address) [] m c left

theorem prepareRoot_of_covered {nonce gas : UInt64} {l : Ledger} (creates : message.target = none)
    (covered : ¬ l.balance message.caller < message.value) :
    prepareRoot host block message nonce gas l =
      (rootCreate message gas).enter host ⟨message.caller, message.gasPrice, block⟩ 0
        (CreateAddress.ofNonce message.caller nonce) l := by
  have here : (get : Journaled Ledger) l = .ok l l := rfl
  rw [prepareRoot, creates]
  refine (bind_of_ok here).trans ?_
  rw [if_neg covered]

/-- The outermost frame of a message that creates ends in one of the two ways. -/
theorem creation_ends_of_runRoot {nonce gas : UInt64} {s t : Session} {result : CallResult}
    (covers : host.rules.gas.CoversStipend) (charges : host.rules.gas.Charges)
    (creates : message.target = none) (covered : ¬ s.ledger.balance message.caller < message.value)
    (h : runRoot host block message nonce gas s = .ok result t) :
    CreationEnds host.rules s.ledger (CreateAddress.ofNonce message.caller nonce)
      (InitRan host (rootCreate message gas) ⟨message.caller, message.gasPrice, block⟩
        (CreateAddress.ofNonce message.caller nonce) s.ledger s.watch) result t.ledger.world := by
  obtain ⟨prepared, u, prepares, h⟩ := bind_eq_ok.mp h
  have entered := @prepareRoot_of_covered host block _ nonce gas _ creates covered
  have sound {root : Frame} {l' : Ledger} := @sound_of_prepareRoot host block message nonce gas
    s.ledger l' root
  rw [ofJournaled, entered] at prepares
  rw [entered] at sound
  generalize CreateAddress.ofNonce message.caller nonce = address at *
  split at prepares
  · next l' enters =>
      cases prepares
      obtain ⟨taken, rfl, rfl⟩ | started := CreateRequest.enter_cases enters
      · obtain ⟨rfl, rfl⟩ := pure_eq_ok.mp h
        exact .undone ⟨rfl, rfl, rfl⟩ (.inl taken)
      · -- The frame is a variable, so that its run is never computed.
        obtain ⟨root, enter, rfl⟩ : ∃ root, root = _ ∧ prepared = .enter root := ⟨_, rfl, started⟩
        have hosts : Hosts root _ _ ⟨l', [root], s.watch⟩ :=
          hosts_root (enter ▸ Frame.fresh_start _ _ _ _) (sound enters _)
        have target : root.target = .account address := congrArg Frame.target enter
        have origin : root.origin = (rootCreate message gas).origin _ 0 address :=
          congrArg Frame.origin enter
        obtain ⟨answered, same⟩ := ofOutcome_ok h
        obtain ⟨k, last, m', reached, done, ledger⟩ := last_of_run answered
        have hosts' := (iterate_keeps (fun _ _ step => step.hosts covers charges) k hosts).1 last
          reached
        obtain ⟨c, left, closed, ways⟩ := hosts'.founds target done
        have ran : InitRan host _ _ address _ s.watch c left :=
          ⟨root, l', k, last, enters, reached, origin ▸ closed⟩
        have after : t.ledger = m'.ledger := by simp only [same, ledger]
        rw [after]
        obtain founds | ⟨undone, rejected⟩ := ways
        · exact .founded ran founds
        · exact .undone undone (.inr ⟨c, left, ran, rejected⟩)
  · cases prepares

/-- How a message that creates comes to its result: the creation itself has ended with the result
`before`, in the session `t`. -/
structure CreationConcludes (host : Host) (block : Block) (message : Message) (s : Session)
    (before : CallResult) (t : Session) (result : CallResult) (s' : Session) : Prop where
  ran : runRoot host block message (s.ledger.nonce message.caller)
    (message.gasLimit - intrinsicGas host message)
    ⟨s.ledger.checkpoint.bumpNonce message.caller, s.watch⟩ = .ok before t
  ends : CreationEnds host.rules (s.ledger.checkpoint.bumpNonce message.caller)
    (CreateAddress.ofNonce message.caller (s.ledger.nonce message.caller))
    (InitRan host (rootCreate message (message.gasLimit - intrinsicGas host message))
      ⟨message.caller, message.gasPrice, block⟩
      (CreateAddress.ofNonce message.caller (s.ledger.nonce message.caller))
      (s.ledger.checkpoint.bumpNonce message.caller) s.watch) before t.ledger.world
  settles : Settles host message before result
  success : result.success = before.success
  created : result.created = before.created
  kept : result.success = true → ∀ a ∉ result.destroyed,
    s'.ledger.world.account? a = t.ledger.world.account? a
  undone : result.success = false → s'.ledger.world =
    s.ledger.world.setNonce message.caller (s.ledger.nonce message.caller + 1)

theorem creationConcludes_of_transact {s s' : Session} {result : CallResult}
    (covers : host.rules.gas.CoversStipend) (charges : host.rules.gas.Charges)
    (creates : message.target = none) (covered : message.value ≤ s.ledger.balance message.caller)
    (done : transact host block message s = .ok result s') :
    ∃ before t, CreationConcludes host block message s before t result s' := by
  obtain ⟨before, t, ran, settles⟩ := settles_of_transact covers done
  have balance : (s.ledger.checkpoint.bumpNonce message.caller).balance message.caller =
      s.ledger.balance message.caller := by
    rw [Ledger.bumpNonce, Ledger.balance_raiseNonce]
    rfl
  have affords : ¬ (s.ledger.checkpoint.bumpNonce message.caller).balance message.caller <
      message.value := by
    rw [balance]
    exact BitVec.not_lt.mpr covered
  have success : result.success = before.success := by
    rw [settles.settled]
    rfl
  have created : result.created = before.created := by
    rw [settles.settled]
    rfl
  have ends := creation_ends_of_runRoot
    (s := ⟨s.ledger.checkpoint.bumpNonce message.caller, s.watch⟩) covers charges creates affords ran
  refine ⟨before, t, ran, ends, settles, success, created, fun won a other => ?_,
    fun failed => ?_⟩
  · obtain ⟨before', t', ran', deletes⟩ :=
      ((value_conserved host block message s).2 result s' done).2.1 won
    cases ran.symm.trans ran'
    rw [deletes.world, Ledger.account?_deleteAll other]
  · exact ((messages_atomic host block message s).2.1 result s' done failed).1

/-- Every creation that is not refused raises the creator's nonce and then founds its account or is
undone. So it is with one that a frame of a message asks for, which is told the address or zero when
it goes on, and with a message that is one itself. Otherwise the message gives no result at all,
over a credit that does not fit, which takes balances that do not fit a word together. -/
theorem creations_end (fork : Fork) (blockHash : UInt64 → Option Hash) (block : Block)
    (message : Message) :
    let host := Host.ofRules (.ofFork fork) blockHash
    (∀ (nonce gas : UInt64) (l l' : Ledger) (root : Frame) (watch : Watch) (k : Nat) (m : Machine)
      (f f₁ : Frame) (below : List Frame) (l₁ : Ledger) (r : CreateRequest),
      prepareRoot host block message nonce gas l = .ok (.enter root) l' →
      iterate host k ⟨l', [root], watch⟩ = .more m → m.frames = f :: below → f.isRunning = true →
      Focus.step ⟨f, m.ledger⟩ host (f.fetch host m.watch.interrupted) =
        .ok (.create r) ⟨f₁, l₁⟩ →
      r.isRefused host.rules l₁ (f₁.env.depth + 1) = false →
      let address := r.addressFor (l₁.nonce r.creator)
      let raised := l₁.bumpNonce r.creator
      raised.world = l₁.world.setNonce r.creator (l₁.nonce r.creator + 1) ∧
      r.prepare host f₁.env.tx (f₁.env.depth + 1) l₁ = (do
        let prepared ← r.enter host f₁.env.tx (f₁.env.depth + 1) address
        return (prepared, some address)) raised ∧
      ((∃ last m' result, Requested host m last m' (.create r) f₁ below l₁ ∧
          m'.frames = f₁.resumed result (.account address) :: below ∧
          (f₁.resumed result (.account address)).stack.words =
            (if result.success then address.toWord else 0) :: f₁.stack.words ∧
          CreationEnds host.rules raised address
            (Ended (r.origin f₁.env.tx (f₁.env.depth + 1) address) (f₁ :: below) last) result
            m'.ledger.world) ∨
        ∃ n e m', iterate host n m = .failed e m' ∧ e.Overflows l.world)) ∧
    ∀ s : Session, message.target = none → intrinsicGas host message ≤ message.gasLimit →
      message.value ≤ s.ledger.balance message.caller →
      answer (call host block message) s = answer (transact host block message) s ∧
      ((∃ before t result s', transact host block message s = .ok result s' ∧
          CreationConcludes host block message s before t result s') ∨
        ∃ e, answer (transact host block message) s = .error e ∧ e.Overflows s.ledger.world) := by
  intro host
  have covers : host.rules.gas.CoversStipend := GasSchedule.coversStipend_ofFork fork
  have charges : host.rules.gas.Charges := GasSchedule.charges_ofFork fork
  refine ⟨?_, ?_⟩
  · intro nonce gas l l' root watch k m f f₁ below l₁ r set reached frames running stepped accepted
      address raised
    have sound := (iterate_keeps (fun _ _ step => step.sound) k (sound_of_prepareRoot set watch)).1 m
      reached
    refine ⟨world_bumpNonce l₁ r.creator, CreateRequest.prepare_of_accepted accepted, ?_⟩
    refine (sound.creation_ends covers charges frames running stepped accepted rfl).imp_left ?_
    rintro ⟨last, m', result, asked, goesOn, ends⟩
    refine ⟨last, m', result, asked, goesOn, ?_, ends⟩
    rw [Frame.stack_resumed, ends.flag]
  · intro s creates paid covered
    refine ⟨(messages_atomic host block message s).2.2.2.2, ?_⟩
    cases done : transact host block message s with
    | ok result s' =>
        obtain ⟨before, t, concludes⟩ := creationConcludes_of_transact covers charges creates covered
          done
        exact .inl ⟨before, t, result, s', rfl, concludes⟩
    | error e s' =>
        have failed : answer (transact host block message) s = .error e := by
          simp only [answer, done]
        have checked := (checkIntrinsic_eq host message).trans (if_neg (UInt64.not_lt.mpr paid))
        exact .inr ⟨e, failed, transact_overflows covers charges checked failed⟩

/-- A message that creates an account, whose init code creates another one. The inner init code
returns one byte and the outer one two, which become code. The outer frame has ended with the gas
that the message has left and two hundred more for each of its bytes. -/
theorem creations_end_nested :
    let host := Host.ofRules (.ofFork .istanbul) fun _ => none
    let code : List UInt8 := [0x64, 0x60, 1, 0x60, 0, 0xf3, 0x60, 0, 0x52, 0x60, 5, 0x60, 27, 0x60,
      0, 0xf0, 0x60, 2, 0x60, 0, 0xf3]
    let message : Message := ⟨2, none, 0, ⟨code.toArray⟩, 200000, 0⟩
    let s : Session := ⟨.empty, Watch.start false none⟩
    let opened := s.ledger.checkpoint.bumpNonce message.caller
    let gas := message.gasLimit - intrinsicGas host message
    let address := CreateAddress.ofNonce message.caller 0
    intrinsicGas host message ≤ message.gasLimit ∧ message.value ≤ s.ledger.balance message.caller ∧
    (∃ before t result s', transact host .genesis message s = .ok result s' ∧
      CreationConcludes host .genesis message s before t result s' ∧
      result.created = some address ∧ s'.ledger.code address = ⟨#[0, 0]⟩ ∧
      s'.ledger.code (CreateAddress.ofNonce address 1) = ⟨#[0]⟩ ∧
      ∃ root l' m, prepareRoot host .genesis message 0 gas opened = .ok (.enter root) l' ∧
        iterate host 14 ⟨l', [root], s.watch⟩ = .more m ∧
        m.frames.map (·.isRunning) = [false] ∧ m.frames.map (·.gas) = [result.gasLeft + 400]) ∧
    ∃ root l' m f f₁ below l₁ r, prepareRoot host .genesis message 0 gas opened =
        .ok (.enter root) l' ∧
      iterate host 6 ⟨l', [root], s.watch⟩ = .more m ∧ m.frames = f :: below ∧
      f.isRunning = true ∧ Focus.step ⟨f, m.ledger⟩ host (f.fetch host m.watch.interrupted) =
        .ok (.create r) ⟨f₁, l₁⟩ ∧
      r.isRefused host.rules l₁ (f₁.env.depth + 1) = false ∧
      ∃ last m' result, Requested host m last m' (.create r) f₁ below l₁ ∧
        CreationEnds host.rules (l₁.bumpNonce r.creator) (r.addressFor (l₁.nonce r.creator))
          (Ended (r.origin f₁.env.tx (f₁.env.depth + 1) (r.addressFor (l₁.nonce r.creator)))
            (f₁ :: below) last) result m'.ledger.world := by
  intro host code message s opened gas address
  obtain ⟨nested, root⟩ := creations_end .istanbul (fun _ => none) .genesis message
  have paid : intrinsicGas host message ≤ message.gasLimit := by decide
  have covered : message.value ≤ s.ledger.balance message.caller := by decide
  refine ⟨paid, covered, ?_, ?_⟩
  · have ended : (visit? host .genesis message 0 gas s.watch 14 opened).any (fun m =>
        decide (m.frames.map (·.isRunning) = [false] ∧ m.frames.map (·.gas) = [114476])) =
          true := by
      decide +kernel
    have kept : (answer (transact host .genesis message) s).toOption.any (fun result =>
          decide (result.created = some address ∧ result.gasLeft = 114076)) = true ∧
        (endState (transact host .genesis message) s).ledger.code address = ⟨#[0, 0]⟩ ∧
        (endState (transact host .genesis message) s).ledger.code
          (CreateAddress.ofNonce address 1) = ⟨#[0]⟩ := by
      decide +kernel
    obtain ⟨root', l', m, set, reached, seen⟩ := reached_of_visit? ended
    obtain ⟨still, gases⟩ := of_decide_eq_true seen
    obtain ⟨-, ⟨before, t, result, s', done, concludes⟩ | ⟨e, -, overflows⟩⟩ :=
      root s rfl paid covered
    · have done : transact host .genesis message s = .ok result s' := done
      obtain ⟨answered, outer, inner⟩ := kept
      rw [answer, done] at answered
      rw [endState_ok done] at outer inner
      obtain ⟨created, left⟩ := of_decide_eq_true answered
      refine ⟨before, t, result, s', done, concludes, created, outer, inner, root', l', m, set,
        reached, still, ?_⟩
      rw [gases, left]
      rfl
    · exact absurd overflows.2 (by decide)
  · have found : (visit? host .genesis message 0 gas s.watch 6 opened).any
        (fun m => (m.creation? host).any fun asked =>
          !asked.1.isRefused host.rules asked.2.ledger (asked.2.frame.env.depth + 1)) = true := by
      decide +kernel
    obtain ⟨root, l', m, set, reached, passes⟩ := reached_of_visit? found
    obtain ⟨⟨r, f₁, l₁⟩, asked⟩ : ∃ found, m.creation? host = some found := by
      cases asked : m.creation? host with
      | none =>
          rw [asked] at passes
          cases passes
      | some found => exact ⟨found, rfl⟩
    obtain ⟨f, below, frames, running, stepped⟩ := asked_of_creation? asked
    have accepted : r.isRefused host.rules l₁ (f₁.env.depth + 1) = false := by
      simpa only [asked, Option.any_some, Bool.not_eq_true'] using passes
    refine ⟨root, l', m, f, f₁, below, l₁, r, set, reached, frames, running, stepped, accepted, ?_⟩
    obtain ⟨-, -, ⟨last, m', result, requested, -, -, ends⟩ | ⟨_, e, _, -, overflows⟩⟩ :=
      nested 0 gas opened l' root s.watch 6 m f f₁ below l₁ r set reached frames running stepped
        accepted
    · exact ⟨last, m', result, requested, ends⟩
    · exact absurd overflows.2 (by decide)

/-- The last nonce of all is followed by zero. A balance with no room for the value takes the result
away from a message that creates, and the raised nonce with it. And an account that destroys itself
in its init code is named by the result of the message, but is not there any more. -/
theorem creations_end_at_bounds :
    let host := Host.ofRules (.ofFork .istanbul) fun _ => none
    let creation (value : Word) (code : ByteArray) : Message := ⟨2, none, value, code, 100000, 0⟩
    let holding (w : World) : Session := ⟨.ofWorld w, Watch.start false none⟩
    let last := holding (World.empty.setAccount 2 (some { Account.blank with nonce := 0 - 1 }))
    let holder := World.empty.setAccount 2 (some { Account.blank with balance := 1 })
    let full := holding (holder.setAccount (CreateAddress.ofNonce 2 0)
      (some { Account.blank with balance := 0 - 1 }))
    let destroys : ByteArray := ⟨#[0x33, 0xff]⟩
    let destroyed := endState (transact host .genesis (creation 0 destroys)) (holding .empty)
    ((answer (transact host .genesis (creation 0 .empty)) last).toOption.map CallResult.success =
        some true ∧
      (last.ledger.nonce 2).toNat + 1 = 2 ^ 64 ∧
      (endState (transact host .genesis (creation 0 .empty)) last).ledger.nonce 2 = 0) ∧
    ((answer (transact host .genesis (creation 1 .empty)) full).toOption = none ∧
      (endState (transact host .genesis (creation 1 .empty)) full).ledger.nonce 2 = 0) ∧
    (answer (transact host .genesis (creation 0 destroys)) (holding .empty)).toOption.bind
        CallResult.created = some (CreateAddress.ofNonce 2 0) ∧
      destroyed.ledger.hasAccount (CreateAddress.ofNonce 2 0) = false := by
  decide +kernel

end Engine
end EvmEngine
