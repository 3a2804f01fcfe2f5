import EvmEngine.Proofs.Engine.Atomicity
import EvmEngine.Proofs.Instruction.Refunds
import EvmEngine.Proofs.Machine.Conservation

/-!
The gas of a message. What the outermost frame leaves is within what the message paid for beyond its
intrinsic cost; at most half of what was used is refunded, and used and left gas make up the limit.
-/

namespace EvmEngine

open Effects

namespace Gas

theorem cappedRefund_le (gasUsed : UInt64) (refund : Int64) :
    (cappedRefund gasUsed refund).toNat ≤ gasUsed.toNat / 2 := by
  have half : (gasUsed / 2).toNat = gasUsed.toNat / 2 := UInt64.toNat_div _ _
  rw [← half, ← UInt64.le_iff_toNat_le]
  exact Std.min_le_right

end Gas

namespace Engine

variable {host : Host} {block : Block} {message : Message}

theorem refundOf_le (rules : Rules) (gasLimit : UInt64) (result : CallResult)
    (within : result.gasLeft ≤ gasLimit) :
    (refundOf rules gasLimit result).toNat ≤ (gasLimit.toNat - result.gasLeft.toNat) / 2 := by
  simp only [refundOf]
  split
  · rw [← UInt64.toNat_sub_of_le _ _ within]
    exact Gas.cappedRefund_le _ _
  · exact Nat.zero_le _

/-- How the result of a message comes from that of its outermost frame, in exact numbers. -/
structure Settles (host : Host) (message : Message) (before result : CallResult) : Prop where
  settled : result = settle host.rules message.gasLimit before
  covered : (intrinsicGas host message).toNat + before.gasLeft.toNat ≤ message.gasLimit.toNat
  total : result.gasUsed.toNat + result.gasLeft.toNat = message.gasLimit.toNat
  refunded : (result.gasLeft.toNat : Int) = before.gasLeft.toNat + result.refund.toInt
  refund_nonneg : 0 ≤ result.refund.toInt
  refund_le : result.refund.toInt ≤
    ((message.gasLimit.toNat - before.gasLeft.toNat) / 2 : Nat)

theorem settles_of_gasLeft_le {before : CallResult}
    (paid : intrinsicGas host message ≤ message.gasLimit)
    (left : before.gasLeft ≤ message.gasLimit - intrinsicGas host message) :
    Settles host message before (settle host.rules message.gasLimit before) := by
  have enough := UInt64.le_iff_toNat_le.mp paid
  have remains := UInt64.le_iff_toNat_le.mp left
  rw [UInt64.toNat_sub_of_le _ _ paid] at remains
  have within : before.gasLeft ≤ message.gasLimit := by
    rw [UInt64.le_iff_toNat_le]
    omega
  have half := refundOf_le host.rules message.gasLimit before within
  have bound := message.gasLimit.toNat_lt_size
  have sum : (before.gasLeft + refundOf host.rules message.gasLimit before).toNat =
      before.gasLeft.toNat + (refundOf host.rules message.gasLimit before).toNat :=
    Gas.toNat_add_of_lt (by omega)
  have below : before.gasLeft + refundOf host.rules message.gasLimit before ≤ message.gasLimit := by
    rw [UInt64.le_iff_toNat_le, sum]
    omega
  have counted := Gas.toInt_asRefund (refundOf host.rules message.gasLimit before) (by omega)
  refine ⟨rfl, by omega, ?_, ?_, ?_, ?_⟩
  · simp only [settle]
    rw [UInt64.toNat_sub_of_le _ _ below, sum]
    omega
  · simp only [settle]
    rw [counted, sum]
    omega
  · simp only [settle]
    rw [counted]
    omega
  · simp only [settle]
    rw [counted]
    omega

theorem ofOutcome_ok {outcome : RunOutcome} {result : CallResult} {s : Session}
    (h : ofOutcome outcome = .ok result s) :
    outcome.result = .ok result ∧ s = ⟨outcome.ledger, outcome.watch⟩ := by
  simp only [ofOutcome] at h
  split at h
  · next answered =>
      cases h
      exact ⟨answered, rfl⟩
  · cases h

theorem gasLeft_runRoot_le {nonce gas : UInt64} {s s' : Session} {result : CallResult}
    (covers : host.rules.gas.CoversStipend)
    (h : runRoot host block message nonce gas s = .ok result s') : result.gasLeft ≤ gas := by
  obtain ⟨prepared, t, prepares, h⟩ := bind_eq_ok.mp h
  have follows := (ofJournaled_ensures prepareRoot_ensures).ok prepares
  cases prepared with
  | finished answer =>
      obtain ⟨rfl, -⟩ := pure_eq_ok.mp h
      exact follows.accounts.gasLeft_le
  | enter root =>
      obtain ⟨fresh, -⟩ := follows.enters
      have given : root.gas = gas := by
        rw [fresh]
        rfl
      rw [← given]
      exact Machine.run_gasLeft_le covers (ofOutcome_ok h).1

theorem checkIntrinsic_ok {intrinsic : UInt64} (h : checkIntrinsic host message = .ok intrinsic) :
    intrinsicGas host message ≤ message.gasLimit ∧ intrinsicGas host message = intrinsic := by
  simp only [checkIntrinsic] at h
  split at h
  · cases h
  · next enough =>
      cases h
      exact ⟨UInt64.not_lt.mp enough, rfl⟩

theorem bracket_ok {α : Type} {action : EngineM α} {onOk onError : Ledger → Except StateError Ledger}
    {a : α} {s s' : Session} (h : bracket action onOk onError s = .ok a s') :
    ∃ t, action { s with ledger := s.ledger.checkpoint } = .ok a t := by
  simp only [bracket] at h
  split at h
  · next answer t ran =>
      split at h
      · cases h
        exact ⟨t, ran⟩
      · cases h
  · split at h <;> cases h

theorem execute_ok {intrinsic : UInt64} {s s' : Session} {result : CallResult}
    (h : execute host block message intrinsic s = .ok result s') :
    ∃ before t, runRoot host block message (s.ledger.nonce message.caller)
        (message.gasLimit - intrinsic)
        { s with ledger := s.ledger.bumpNonce message.caller } = .ok before t ∧
      conclude host message before t = .ok result s' ∧
      result = settle host.rules message.gasLimit before := by
  rw [execute_eq] at h
  obtain ⟨before, t, ran, concludes⟩ := bind_eq_ok.mp h
  obtain ⟨_, concluded, -⟩ := conclude_ok host message before t
  refine ⟨before, t, ran, concludes, ?_⟩
  cases concludes.symm.trans concluded
  rfl

/-- A transaction that gives a result has run its outermost frame and settled what that left. -/
theorem settles_of_transact {s s' : Session} {result : CallResult}
    (covers : host.rules.gas.CoversStipend)
    (h : transact host block message s = .ok result s') :
    ∃ before t, runRoot host block message (s.ledger.nonce message.caller)
        (message.gasLimit - intrinsicGas host message)
        ⟨s.ledger.checkpoint.bumpNonce message.caller, s.watch⟩ = .ok before t ∧
      Settles host message before result := by
  simp only [transact, checked] at h
  split at h
  · next intrinsic covered =>
      obtain ⟨paid, rfl⟩ := checkIntrinsic_ok covered
      obtain ⟨t, executed⟩ := bracket_ok h
      obtain ⟨before, t₁, ran, -, rfl⟩ := execute_ok executed
      exact ⟨before, t₁, ran, settles_of_gasLeft_le paid (gasLeft_runRoot_le covers ran)⟩
  · cases h

/-- Gas is never created. Under prices that cover the stipend it is conserved at the head of every
iteration of every run, and a transaction that gives a result settles it exactly. -/
theorem gas_conserved {host : Host} (covers : host.rules.gas.CoversStipend) :
    (∀ (root : Frame) (ledger : Ledger) (watch : Watch) (n : Nat) (m : Machine),
      root.gas ≤ root.gasLimit → Machine.iterate host n ⟨ledger, [root], watch⟩ = .more m →
      Machine.Conserves host root m) ∧
    ∀ (block : Block) (message : Message) (s s' : Session) (result : CallResult),
      transact host block message s = .ok result s' →
      ∃ before t, runRoot host block message (s.ledger.nonce message.caller)
          (message.gasLimit - intrinsicGas host message)
          ⟨s.ledger.checkpoint.bumpNonce message.caller, s.watch⟩ = .ok before t ∧
        Settles host message before result :=
  ⟨fun _ _ _ _ _ full reached => Machine.conserves_of_iterate covers full reached,
    fun _ _ _ _ _ done => settles_of_transact covers done⟩

/-- A contract clears a slot and pays another one in a call to which it gives no gas of its own. The
inner frame runs on the stipend alone, and the slot is refunded at the end. -/
theorem gas_conserved_stipend_and_refund :
    let host := Host.ofRules (.ofFork .istanbul) fun _ => none
    let pays : Account := ⟨10, 0, ⟨#[0x60, 0, 0x60, 0, 0x55, 0x60, 0, 0x60, 0, 0x60, 0, 0x60, 0,
      0x60, 1, 0x60, 8, 0x60, 0, 0xf1, 0]⟩, 0⟩
    let measures : Account := ⟨0, 0, ⟨#[0x5a, 0x50, 0]⟩, 0⟩
    let accounts := (World.empty.setAccount 7 (some pays)).setAccount 8 (some measures)
    let ledger := Ledger.ofWorld (accounts.setSlot (7, 0) (some 5))
    let message : Message := ⟨2, some 7, 0, ByteArray.empty, 100000, 0⟩
    let opened := ledger.checkpoint.bumpNonce message.caller
    let nonce := ledger.nonce message.caller
    let gas := message.gasLimit - intrinsicGas host message
    let watch := Watch.start false none
    host.rules.gas.CoversStipend ∧
      (∃ root l' m, prepareRoot host .genesis message nonce gas opened = .ok (.enter root) l' ∧
        root.gas ≤ root.gasLimit ∧ Machine.iterate host 11 ⟨l', [root], watch⟩ = .more m ∧
        m.frames.map (·.env.value) = [1, 0] ∧ m.frames.map (·.gas) = [2300, 64273] ∧
        Machine.Conserves host root m) ∧
      ∃ result s' before, transact host .genesis message ⟨ledger, watch⟩ = .ok result s' ∧
        result.success = true ∧ result.refund = 15000 ∧ Settles host message before result := by
  intro host pays measures accounts ledger message opened nonce gas watch
  have covers : host.rules.gas.CoversStipend := GasSchedule.coversStipend_ofFork .istanbul
  obtain ⟨conserved, settled⟩ := gas_conserved covers
  refine ⟨covers, ?_, ?_⟩
  · have found : (visit? host .genesis message nonce gas watch 11 opened).any (fun m =>
        decide (m.frames.map (·.env.value) = [1, 0] ∧ m.frames.map (·.gas) = [2300, 64273])) =
          true := by
      decide +kernel
    obtain ⟨root, l', m, set, reached, seen⟩ := reached_of_visit? found
    obtain ⟨values, gases⟩ := of_decide_eq_true seen
    have full : root.gas ≤ root.gasLimit := by
      rw [(prepareRoot_ensures.ok set).enters.1]
      exact UInt64.le_refl _
    exact ⟨root, l', m, set, full, reached, values, gases,
      conserved root l' watch 11 m full reached⟩
  · have ends : (answer (transact host .genesis message) ⟨ledger, watch⟩).toOption.any
        (fun result => result.success && result.refund = 15000) = true := by
      decide +kernel
    obtain ⟨result, s', done, seen⟩ := ok_of_answer ends
    obtain ⟨success, refund⟩ := Bool.and_eq_true_iff.mp seen
    obtain ⟨before, t, -, settles⟩ := settled _ _ _ _ _ done
    exact ⟨result, s', before, done, success, of_decide_eq_true refund, settles⟩

end Engine
end EvmEngine
