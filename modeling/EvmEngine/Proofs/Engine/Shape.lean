import EvmEngine.Proofs.Calls.Shape
import EvmEngine.Proofs.Engine.Gas
import EvmEngine.Proofs.Machine.Requests

/-!
What the result of a message can hold. It has one of four shapes, by how the message ended: only a
success keeps logs, refunds, deletions and a new account, only a revert keeps output beside it, and a
fault takes all the gas. A message is refused just where its sender cannot cover the value, and then
costs the intrinsic gas alone.
-/

namespace EvmEngine

open Effects

/-- The four ways in which a message can end. -/
inductive Ending
  | succeeded
  | reverted
  | faulted
  | refused
  deriving DecidableEq

/-- What the result of a message that ended in this way holds. -/
def CallResult.Ends (message : Message) (intrinsic : UInt64) (r : CallResult) : Ending → Prop
  | .succeeded => r.verdict = .success ∧ r.created.isSome = message.isCreate ∧
      (message.isCreate = true → r.returnData = ByteArray.empty)
  | .reverted => r.verdict = .reverted ∧ r.Bare ∧ r.created = none
  | .faulted => (∃ cause, r.verdict = .faulted cause) ∧ r.Bare ∧ r.created = none ∧
      r.gasLeft = 0 ∧ r.gasUsed = message.gasLimit ∧ r.returnData = ByteArray.empty
  | .refused => r.verdict = .refused ∧ r.Bare ∧ r.created = none ∧
      r.gasUsed = intrinsic ∧ r.returnData = ByteArray.empty

/-- The way is told by the verdict alone. -/
def Verdict.ending : Verdict → Ending
  | success => .succeeded
  | reverted => .reverted
  | faulted _ => .faulted
  | refused => .refused

theorem CallResult.Ends.ending_eq {message : Message} {intrinsic : UInt64} {r : CallResult}
    {ending : Ending} (h : r.Ends message intrinsic ending) : ending = r.verdict.ending := by
  cases ending with
  | succeeded | reverted | refused =>
      rw [h.1]
      rfl
  | faulted =>
      obtain ⟨cause, verdict⟩ := h.1
      rw [verdict]
      rfl

namespace Engine

variable {host : Host} {block : Block} {message : Message}

/-- The outermost call is refused just where the value is not covered. -/
theorem isRefused_rootCall (rules : Rules) (callee : Address) (gas : UInt64) (l : Ledger) :
    (rootCall message callee gas).isRefused rules l 0 = true ↔
      l.balance message.caller < message.value := by
  have shallow : ¬ rules.maxCallDepth < 0 := UInt64.not_lt_zero
  show (decide (rules.maxCallDepth < 0) || (decide (message.value ≠ 0) &&
    decide (l.balance message.caller < message.value))) = true ↔ _
  rw [decide_eq_false shallow, Bool.false_or, Bool.and_eq_true, decide_eq_true_eq,
    decide_eq_true_eq]
  refine ⟨And.right, fun short => ⟨?_, short⟩⟩
  intro none
  rw [none] at short
  exact absurd short BitVec.not_lt_zero

theorem prepareRoot_shaped {nonce gas : UInt64} {l : Ledger} :
    Ensures (prepareRoot host block message nonce gas) l
      (fun prepared _ => prepared.Shaped message.isCreate
        (l.balance message.caller < message.value) gas) (fun _ _ => True) := by
  rw [prepareRoot]
  cases target : message.target with
  | some callee =>
      have isCreate : message.isCreate = false := by rw [Message.isCreate, target]; rfl
      rw [isCreate, ← isRefused_rootCall host.rules callee gas l]
      exact CallRequest.prepare_shaped _ _ _ _ _
  | none =>
      have isCreate : message.isCreate = true := by rw [Message.isCreate, target]; rfl
      rw [isCreate]
      refine .after (a := l) (t := l) rfl ?_
      split
      · next short => exact .of_ok rfl (Prepared.shaped_refusal short)
      · next covered =>
          -- The address is a variable, so that no digest is ever computed.
          generalize CreateAddress.ofNonce message.caller nonce = address
          have none : (l.balance message.caller < message.value) = False := eq_false covered
          rw [none]
          exact CreateRequest.enter_shaped _ _ _ _ _ _

/-- The result of an outermost frame. -/
structure Shows (message : Message) (gas : UInt64) (l : Ledger) (r : CallResult) : Prop where
  shaped : r.Shaped message.isCreate
  refused : r.verdict = .refused ↔ l.balance message.caller < message.value
  refusal : r.verdict = .refused → r = .refusal gas

theorem shaped_of_run {root : Frame} {ledger : Ledger} {watch : Watch} {result : CallResult}
    (answered : (Machine.run host root ledger watch).result = .ok result) :
    result.Shaped root.target.creates ∧ result.verdict ≠ .refused := by
  obtain ⟨last, m', goal, done, -⟩ := Machine.outcome_ok (m := ⟨ledger, [root], watch⟩)
    (P := fun m => Machine.goal? m.frames = some root.target)
    (fun _ _ step goal => step.goal?.trans goal) rfl answered
  obtain ⟨f, l, watch', rfl, -, completed⟩ := Machine.last_of_finished done
  obtain same : f.target = root.target := Option.some.inj goal
  exact same ▸ Frame.shaped_complete completed

theorem shows_of_runRoot {nonce gas : UInt64} {s s' : Session} {result : CallResult}
    (h : runRoot host block message nonce gas s = .ok result s') :
    Shows message gas s.ledger result := by
  obtain ⟨prepared, t, prepares, h⟩ := bind_eq_ok.mp h
  have shaped := (ofJournaled_ensures prepareRoot_shaped).ok prepares
  cases prepared with
  | finished answer =>
      obtain ⟨rfl, -⟩ := pure_eq_ok.mp h
      exact ⟨shaped.1, shaped.2.1, shaped.2.2⟩
  | enter root =>
      obtain ⟨creates, accepted⟩ := shaped
      obtain ⟨holds, entered⟩ := shaped_of_run (ofOutcome_ok h).1
      exact ⟨creates ▸ holds, ⟨fun is => absurd is entered, fun short => absurd short accepted⟩,
        fun is => absurd is entered⟩

/-- Settling a result keeps its shape: nothing is refunded for a failure. -/
theorem ends_of_settles {before result : CallResult} {l : Ledger}
    (shows : Shows message (message.gasLimit - intrinsicGas host message) l before)
    (settles : Settles host message before result) :
    result.verdict = before.verdict ∧
      result.Ends message (intrinsicGas host message) result.verdict.ending ∧
      (result.success = false → intrinsicGas host message ≤ result.gasUsed) := by
  obtain ⟨settled, covered, total, -, -, -⟩ := settles
  have verdict : result.verdict = before.verdict := by rw [settled]; rfl
  have created : result.created = before.created := by rw [settled]; rfl
  have returnData : result.returnData = before.returnData := by rw [settled]; rfl
  have unrefunded (failed : before.success = false) :
      result.gasLeft = before.gasLeft ∧ (before.Bare → result.Bare) := by
    have none : refundOf host.rules message.gasLimit before = 0 := by
      simp only [refundOf, failed, Bool.false_eq_true, if_false]
    have refund : result.refund = 0 := by
      rw [settled, settle, none]
      rfl
    have logs : result.logs = before.logs := by rw [settled]; rfl
    have destroyed : result.destroyed = before.destroyed := by rw [settled]; rfl
    refine ⟨?_, fun bare => ⟨logs.trans bare.logs, refund, destroyed.trans bare.destroyed⟩⟩
    rw [settled, settle, none]
    exact UInt64.add_zero _
  have shaped := shows.shaped
  refine ⟨verdict, ?_, fun failed => ?_⟩
  · simp only [CallResult.Shaped] at shaped
    cases kind : before.verdict with
    | success =>
        rw [kind] at shaped
        rw [verdict, kind]
        exact ⟨verdict.trans kind, created ▸ shaped.1, returnData ▸ shaped.2⟩
    | reverted =>
        rw [kind] at shaped
        obtain ⟨-, bare⟩ := unrefunded (by rw [CallResult.success, kind]; rfl)
        rw [verdict, kind]
        exact ⟨verdict.trans kind, bare shaped.1, created.trans shaped.2⟩
    | faulted cause =>
        rw [kind] at shaped
        obtain ⟨holds, unnamed, spent, silent⟩ := shaped
        obtain ⟨left, bare⟩ := unrefunded (by rw [CallResult.success, kind]; rfl)
        rw [verdict, kind]
        refine ⟨⟨cause, verdict.trans kind⟩, bare holds, created.trans unnamed, left.trans spent, ?_,
          returnData.trans silent⟩
        rw [left, spent] at total
        exact UInt64.toNat_inj.mp total
    | refused =>
        rw [kind] at shaped
        obtain ⟨holds, unnamed, silent⟩ := shaped
        obtain ⟨left, bare⟩ := unrefunded (by rw [CallResult.success, kind]; rfl)
        rw [verdict, kind]
        refine ⟨verdict.trans kind, bare holds, created.trans unnamed, ?_, returnData.trans silent⟩
        have whole : before.gasLeft = message.gasLimit - intrinsicGas host message := by
          rw [shows.refusal kind]
          rfl
        have paid : intrinsicGas host message ≤ message.gasLimit := by
          rw [UInt64.le_iff_toNat_le]
          omega
        rw [left, whole, UInt64.toNat_sub_of_le _ _ paid] at total
        apply UInt64.toNat_inj.mp
        have enough := UInt64.le_iff_toNat_le.mp paid
        omega
  · have lost : before.success = false := by rwa [CallResult.success, ← verdict]
    rw [(unrefunded lost).1] at total
    rw [UInt64.le_iff_toNat_le]
    omega

/-- The result of a message, whether it is kept or only asked for, has exactly one of the four
shapes. It is a refusal just where the sender cannot cover the value, and no failure costs less than
the intrinsic gas. -/
theorem result_shape (fork : Fork) (blockHash : UInt64 → Option Hash) (block : Block)
    (message : Message) (s : Session) (result : CallResult) :
    let host := Host.ofRules (.ofFork fork) blockHash
    answer (transact host block message) s = .ok result ∨
        answer (call host block message) s = .ok result →
      (∃ ending, result.Ends message (intrinsicGas host message) ending ∧
        ∀ other, result.Ends message (intrinsicGas host message) other → other = ending) ∧
      (result.Ends message (intrinsicGas host message) .refused ↔
        s.ledger.balance message.caller < message.value) ∧
      (result.success = false → intrinsicGas host message ≤ result.gasUsed) := by
  intro host answered
  have covers : host.rules.gas.CoversStipend := GasSchedule.coversStipend_ofFork fork
  have transacted : answer (transact host block message) s = .ok result := by
    obtain transacted | called := answered
    · exact transacted
    · exact (messages_atomic host block message s).2.2.2.2.symm.trans called
  obtain ⟨s', done⟩ : ∃ s', transact host block message s = .ok result s' := by
    simp only [answer] at transacted
    split at transacted
    · next done =>
        cases transacted
        exact ⟨_, done⟩
    · cases transacted
  obtain ⟨before, t, ran, settles⟩ := settles_of_transact covers done
  have shows := shows_of_runRoot ran
  obtain ⟨verdict, ends, costs⟩ := ends_of_settles shows settles
  have balance : (s.ledger.checkpoint.bumpNonce message.caller).balance message.caller =
      s.ledger.balance message.caller := by
    rw [Ledger.bumpNonce, Ledger.balance_raiseNonce]
    rfl
  have refused := shows.refused
  rw [← verdict, balance] at refused
  refine ⟨⟨_, ends, fun other holds => holds.ending_eq⟩, ?_, costs⟩
  rw [← refused]
  refine ⟨And.left, fun is => ?_⟩
  rw [is] at ends
  exact ends

/-- Two contracts call a third one that writes to storage and reverts. The first then reverts as
well, with two bytes, and the second comes to a byte that is no instruction. A message that carries
a value its sender does not have runs nothing. -/
theorem result_shape_nested_failures :
    let host := Host.ofRules (.ofFork .istanbul) fun _ => none
    let calls : List UInt8 := [0x60, 0, 0x60, 0, 0x60, 0, 0x60, 0, 0x60, 0, 0x60, 9, 0x5a, 0xf1]
    let holding (code : List UInt8) : Option Account := some ⟨0, 0, ⟨code.toArray⟩, 0⟩
    let world := World.empty.setAccount 7 (holding (calls ++ [0x60, 2, 0x60, 0, 0xfd]))
    let world := world.setAccount 8 (holding (calls ++ [0xfe]))
    let world := world.setAccount 9 (holding [0x60, 1, 0x60, 0, 0x55, 0x60, 0, 0x60, 0, 0xfd])
    let s : Session := ⟨.ofWorld world, Watch.start false none⟩
    let sending (target : Address) (value : Word) : Message :=
      ⟨2, some target, value, ByteArray.empty, 100000, 0⟩
    let fails (message : Message) (ending : Ending) (size : Nat) : Prop :=
      ∃ result, answer (transact host .genesis message) s = .ok result ∧
        result.returnData.size = size ∧
        result.Ends message (intrinsicGas host message) ending ∧
        (∀ other, result.Ends message (intrinsicGas host message) other → other = ending) ∧
        intrinsicGas host message ≤ result.gasUsed
    fails (sending 7 0) .reverted 2 ∧ fails (sending 8 0) .faulted 0 ∧
      fails (sending 7 1) .refused 0 := by
  intro host calls holding _ _ world s sending fails
  have told (message : Message) (ending : Ending) (size : Nat)
      (ends : (answer (transact host .genesis message) s).toOption.any (fun result =>
        decide (result.success = false ∧ result.verdict.ending = ending ∧
          result.returnData.size = size)) = true) : fails message ending size := by
    obtain ⟨result, s', done, seen⟩ := ok_of_answer ends
    obtain ⟨failed, rfl, counted⟩ := of_decide_eq_true seen
    have answered : answer (transact host .genesis message) s = .ok result :=
      answer_eq_ok.mpr ⟨s', done⟩
    obtain ⟨⟨ending, holds, only⟩, -, costs⟩ :=
      result_shape .istanbul (fun _ => none) .genesis message s result (.inl answered)
    obtain rfl := holds.ending_eq
    exact ⟨result, answered, counted, holds, only, costs failed⟩
  exact ⟨told _ _ _ (by decide +kernel), told _ _ _ (by decide +kernel),
    told _ _ _ (by decide +kernel)⟩

end Engine
end EvmEngine
