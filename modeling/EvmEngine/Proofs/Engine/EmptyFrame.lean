import EvmEngine.Proofs.Engine.Atomicity
import EvmEngine.Proofs.Machine.EmptyFrame
import EvmEngine.Proofs.Machine.StackSafety

/-!
Messages to accounts without code. It makes no difference to a call below another frame, nor to a
whole transaction, whether a call to such an account is answered at once or by way of a frame that
stops before it has begun.
-/

namespace EvmEngine
namespace Engine

open Effects

variable {host : Host} {block : Block} {message : Message} {callee : Address} {s : Session}

/-- Sets up the outermost frame of a message without regard to whether there is code to run. -/
def prepareRootFrame (host : Host) (block : Block) (message : Message) (nonce gas : UInt64) :
    Journaled Prepared :=
  match message.target with
  | some callee =>
      (rootCall message callee gas).prepareFrame host ⟨message.caller, message.gasPrice, block⟩ 0
  | none => prepareRoot host block message nonce gas

/-- Runs a message inside a checkpoint that is already open, with its outermost frame set up as
given. -/
def executeBy (setUp : UInt64 → UInt64 → Journaled Prepared) (host : Host) (message : Message)
    (intrinsic : UInt64) : EngineM CallResult := do
  let nonce := (← get).ledger.nonce message.caller
  modify fun s => { s with ledger := s.ledger.bumpNonce message.caller }
  conclude host message
    (← runPrepared host (← ofJournaled (setUp nonce (message.gasLimit - intrinsic))))

/-- Runs a message and keeps what it does, with its outermost frame set up as given. -/
def transactBy (setUp : UInt64 → UInt64 → Journaled Prepared) (host : Host) (message : Message) :
    EngineM CallResult :=
  checked host message fun intrinsic =>
    bracket (executeBy setUp host message intrinsic) Ledger.commit Ledger.rollback

/-- A transaction is run with its outermost frame set up as frames are, the shortcut included. -/
theorem transact_eq_transactBy (host : Host) (block : Block) (message : Message) :
    transact host block message = transactBy (prepareRoot host block message) host message := by
  simp only [transact, transactBy, execute, executeBy, runRoot, bind_assoc]

/-- The run of an outermost frame without code: it is finished in the second iteration. -/
theorem runPrepared_blank {env : Environment} {offset length : Nat} {code : ByteArray}
    {gas : UInt64} (noCode : code.isEmpty = true) (clear : s.watch.interrupted = false) :
    let child := Frame.start env (.span offset length) code gas
    runPrepared host (.enter child) s = ofJournaled child.answerEmpty s := by
  intro child
  obtain ⟨l, watch⟩ := s
  have ended : (child.halted .stopped).isRunning = false := child.isRunning_halted (by simp)
  obtain ⟨fuel, enough⟩ : ∃ fuel, Machine.iterationBound gas = fuel + 2 :=
    Nat.exists_eq_add_of_le' (Nat.le_trans (by decide) (Nat.le_add_left UInt64.size _))
  have first : Machine.advance ⟨l, [child], watch⟩ host =
      .more ⟨l, [child.halted .stopped], watch⟩ := Machine.advance_blank noCode clear
  have ran : Machine.run host child l watch =
      (Machine.iterate host (fuel + 1) ⟨l, [child.halted .stopped], watch⟩).outcome := by
    show (Machine.iterate host (Machine.iterationBound gas) _).outcome = _
    rw [enough, Machine.iterate, first]
  have completes : (child.halted .stopped).complete host l = child.answerEmpty l := by
    rw [Frame.complete_blank]
  simp only [runPrepared, ran, ofJournaled, Machine.iterate, Machine.advance, ended,
    Bool.false_eq_true, if_false, completes]
  cases child.answerEmpty l with
  | ok result l' => rfl
  | error e l' => rfl

theorem ofJournaled_bind {α β : Type} (x : Journaled α) (f : α → Journaled β) :
    ofJournaled (x >>= f) = ofJournaled x >>= fun a => ofJournaled (f a) := by
  funext s
  cases ran : x s.ledger with
  | ok a l =>
      have ran' : ofJournaled x s = .ok a { s with ledger := l } := by simp only [ofJournaled, ran]
      rw [bind_of_ok ran']
      simp only [ofJournaled, bind_of_ok ran]
  | error e l =>
      have ran' : ofJournaled x s = .error e { s with ledger := l } := by
        simp only [ofJournaled, ran]
      rw [bind_of_error ran']
      simp only [ofJournaled, bind_of_error ran]

/-- The shortcut does not show where the frame to be entered has no code. -/
theorem runPrepared_shortcut {env : Environment} {offset length : Nat} {code : ByteArray}
    {gas : UInt64} (noCode : code.isEmpty = true) (clear : s.watch.interrupted = false) :
    let prepared := Prepared.enter (Frame.start env (.span offset length) code gas)
    runPrepared host prepared s = (ofJournaled prepared.shortcut >>= runPrepared host) s := by
  intro prepared
  rw [runPrepared_blank noCode clear, Prepared.shortcut_of_noCode noCode, ofJournaled_bind,
    bind_assoc]
  exact (congrFun (bind_pure _) s).symm

/-- The outermost call of a message to an account without code is answered at once as it is answered
by way of a frame. -/
theorem runPrepared_prepare (r : CallRequest) (host : Host) (tx : TxContext) (depth : UInt64)
    (noCode : (s.ledger.code r.codeAddress).isEmpty = true) (clear : s.watch.interrupted = false) :
    (ofJournaled (r.prepareFrame host tx depth) >>= runPrepared host) s =
      (ofJournaled (r.prepare host tx depth) >>= runPrepared host) s := by
  rw [r.prepare_eq, ofJournaled_bind, bind_assoc]
  refine bind_congr_ok fun prepared t set => ?_
  obtain ⟨set, kept⟩ := ofJournaled_ok set
  obtain ⟨-, result, rfl⟩ | ⟨code, noCode, rfl⟩ :=
    (r.prepareFrame_blank host tx depth noCode).ok set
  · rfl
  · exact runPrepared_shortcut noCode (kept ▸ clear)

theorem executeBy_apply (setUp : UInt64 → UInt64 → Journaled Prepared) (intrinsic : UInt64) :
    executeBy setUp host message intrinsic s =
      ((ofJournaled (setUp (s.ledger.nonce message.caller) (message.gasLimit - intrinsic)) >>=
          runPrepared host) >>= conclude host message)
        { s with ledger := s.ledger.bumpNonce message.caller } := by
  rw [bind_assoc]
  rfl

/-- A message to an account without code is executed at once as it is by way of a frame. -/
theorem execute_prepareRootFrame (intrinsic : UInt64) (called : message.target = some callee)
    (noCode : (s.ledger.code callee).isEmpty = true) (clear : s.watch.interrupted = false) :
    executeBy (prepareRootFrame host block message) host message intrinsic s =
      executeBy (prepareRoot host block message) host message intrinsic s := by
  have bumped : ((s.ledger.bumpNonce message.caller).code callee).isEmpty = true :=
    (congrArg ByteArray.isEmpty (s.ledger.code_bumpNonce message.caller callee)).trans noCode
  have answers := runPrepared_prepare (s := { s with ledger := s.ledger.bumpNonce message.caller })
    (rootCall message callee (message.gasLimit - intrinsic)) host
    ⟨message.caller, message.gasPrice, block⟩ 0 bumped clear
  rw [executeBy_apply, executeBy_apply]
  simp only [prepareRootFrame, prepareRoot, called]
  exact bind_congr_left answers

theorem transactBy_prepareRootFrame (called : message.target = some callee)
    (noCode : (s.ledger.code callee).isEmpty = true) (clear : s.watch.interrupted = false) :
    transactBy (prepareRootFrame host block message) host message s =
      transact host block message s := by
  rw [transact_eq_transactBy]
  simp only [transactBy, checked]
  cases checkIntrinsic host message with
  | error e => rfl
  | ok intrinsic =>
      have executes : executeBy (prepareRootFrame host block message) host message intrinsic
          { s with ledger := s.ledger.checkpoint } = _ :=
        execute_prepareRootFrame intrinsic called noCode clear
      simp only [bracket, executes]

/-- To answer a call to an account without code at once agrees with running a frame that has none:
the call comes to a result where it is set up, while the long way it enters a frame, unless it is
refused, and either way the machine comes to the same ledger and the same frames. So does a whole
transaction to such an account. -/
theorem emptyCode_shortcut (host : Host) :
    (∀ (r : CallRequest) (tx : TxContext) (depth : UInt64) (l : Ledger),
      (l.code r.codeAddress).isEmpty = true → host.rules.precompileAt? r.codeAddress = none →
        Ensures (r.prepare host tx depth) l
            (fun prepared _ => ∃ result, prepared = .finished result) (fun _ _ => True) ∧
          (r.isRefused host.rules l depth = false →
            Ensures (r.prepareFrame host tx depth) l
              (fun prepared _ => ∃ code, code.isEmpty = true ∧
                prepared = .enter (Frame.start (r.environment tx depth) r.target code r.gas))
              (fun _ _ => True))) ∧
    (∀ (m : Machine) (r : CallRequest) (frame : Frame) (below : List Frame) (fuel : Nat),
      m.watch.interrupted = false → (m.ledger.code r.codeAddress).isEmpty = true → 2 ≤ fuel →
        m.followFrame host r frame below fuel = m.follow host (.call r) frame below) ∧
    ∀ (block : Block) (message : Message) (callee : Address) (s : Session),
      message.target = some callee → s.watch.interrupted = false →
      (s.ledger.code callee).isEmpty = true →
        transactBy (prepareRootFrame host block message) host message s =
          transact host block message s := by
  refine ⟨fun r tx depth l noCode ordinary =>
      ⟨r.prepare_blank host tx depth noCode, fun accepted => ?_⟩,
    fun m r frame below fuel clear noCode => Machine.followFrame_eq noCode clear,
    fun block message callee s called clear noCode =>
      transactBy_prepareRootFrame called noCode clear⟩
  refine (r.prepareFrame_blank host tx depth noCode).mono (fun prepared _ set => ?_)
    fun _ _ failed => failed
  obtain ⟨refused | special, -⟩ | entered := set
  · rw [accepted] at refused
    cases refused
  · exact absurd ordinary special
  · exact entered

/-- An account sends 5 to an account without code, from a frame and by a transaction. The long way
opens a second frame, and both ways move the value and leave the gas that came with the call. -/
theorem emptyCode_shortcut_transfer :
    let host := Host.ofRules (.ofFork .istanbul) fun _ => none
    let env : Environment :=
      ⟨.message .call, 0xaa, 0xaa, 0xcc, 0xcc, 0, ByteArray.empty, 0, Block.genesis, 0, false⟩
    let frame := Frame.start env (.span 0 0) ByteArray.empty 1000
    let sender : Account := ⟨70000, 0, ByteArray.empty, 0⟩
    let ledger := Ledger.ofWorld (World.empty.setAccount 0xaa (some sender))
    let r : CallRequest :=
      ⟨.call, 500, 0xaa, 0xbb, 0xbb, 5, true, ByteArray.empty, 0, 0, false⟩
    let m : Machine := ⟨ledger.checkpoint, [frame], Watch.start false none⟩
    let message : Message := ⟨0xaa, some 0xbb, 5, ByteArray.empty, 21000, 0⟩
    let s : Session := ⟨ledger, Watch.start false none⟩
    let entered := m.followFrame host r frame [] 0
    let answered := (m.follow host (.call r) frame []).machine
    let after := (endState (transact host Block.genesis message) s).ledger
    Ensures (r.prepareFrame host frame.env.tx 1) m.ledger
        (fun prepared _ => ∃ code, code.isEmpty = true ∧
          prepared = .enter (Frame.start (r.environment frame.env.tx 1) r.target code r.gas))
        (fun _ _ => True) ∧
      m.followFrame host r frame [] 2 = m.follow host (.call r) frame [] ∧
      entered.machine.frames.length = 2 ∧ answered.frames.map (·.gas) = [1500] ∧
      answered.ledger.depth = 1 ∧ answered.ledger.balance 0xbb = 5 ∧
      transactBy (prepareRootFrame host Block.genesis message) host message s =
        transact host Block.genesis message s ∧
      after.depth = 0 ∧ after.balance 0xbb = 5 := by
  intro host env frame sender ledger r m message s entered answered after
  obtain ⟨prepares, nested, outermost⟩ := emptyCode_shortcut host
  have opens := (prepares r frame.env.tx 1 m.ledger rfl (by decide)).2 (by decide +kernel)
  refine ⟨opens, nested m r frame [] 2 rfl rfl (Nat.le_refl 2), by decide +kernel,
    by decide +kernel, by decide +kernel, by decide +kernel, ?_⟩
  exact ⟨outermost Block.genesis message 0xbb s rfl rfl rfl, by decide +kernel, by decide +kernel⟩

end Engine
end EvmEngine
