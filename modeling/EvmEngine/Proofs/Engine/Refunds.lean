import EvmEngine.Proofs.Engine.Lockstep
import EvmEngine.Proofs.Engine.WellFormed
import EvmEngine.Proofs.Machine.Refunds

/-!
The refund of a message under net metering. At the head of every iteration the counters of all frames
together cover the refund for the slots that are cleared, so the counter of an outermost frame that
succeeds is never negative and the clamp at zero never takes effect.
-/

namespace EvmEngine

open Effects Ledger World

namespace Gas

theorem addRefund_nonneg {a b : Int64} (left : 0 ≤ a.toInt) (right : 0 ≤ b.toInt) :
    0 ≤ (addRefund a b).toInt := by
  rw [addRefund, Int64.toInt_minValue, Int64.toInt_maxValue, Int64.toInt_ofInt_of_le (by omega) (by omega)]
  omega

theorem asRefund_nonneg (price : UInt64) : 0 ≤ (asRefund price).toInt := by
  have nonneg : 0 ≤ (price.toNat : Int) := Int.natCast_nonneg _
  rw [asRefund, Int64.toInt_maxValue, Int64.toInt_ofInt_of_le (by omega) (by omega)]
  omega

end Gas

theorem Rules.netMetered_ofFork {fork : Fork}
    (net : fork = .constantinople ∨ fork = .istanbul) : (ofFork fork).NetMetered where
  net := by obtain rfl | rfl := net <;> exact fun legacy => nomatch legacy
  refundable := GasSchedule.refundable_ofFork fork
  covers := GasSchedule.coversStipend_ofFork fork

namespace Machine

/-- Nothing is counted or cleared before a frame is open. -/
theorem covered_nil {gas : GasSchedule} {start w : World} {limit left : Nat} (le : left ≤ limit)
    (slots : ∀ place, w.slot? place = start.slot? place) :
    Covered gas start limit left [] w := by
  have granted : tally (Gas.granted gas) start w = 0 :=
    tally_start (fun initial => by simp [Gas.granted]) slots
  have reserve : tally (Gas.reserve gas) start w = 0 :=
    tally_start (fun initial => by simp [Gas.reserve]) slots
  have none : refunds [] = 0 := rfl
  exact ⟨by omega, by omega⟩

end Machine

namespace Engine

variable {host : Host} {block : Block} {message : Message}

/-- The run that a message makes starts with its counters accounted for, where what was done before
has kept all code and all slots. -/
theorem accounted_of_prepareRoot {nonce gas : UInt64} {start : World} {l l' : Ledger} {root : Frame}
    (coded : start.Coded) (alike : Alike start [] [] 0 l l) (kept : start.KeepsCode l.world)
    (slots : ∀ place, l.world.slot? place = start.slot? place)
    (h : prepareRoot host block message nonce gas l = .ok (.enter root) l') (watch : Watch) :
    Machine.Accounted host block start gas.toNat ⟨l', [root], watch⟩ := by
  have bisim : Bisimulation host.rules (Alike start [] []) := Alike.bisimulation fun _ _ => rfl
  have twins := prepareRoot_parallel bisim block message nonce gas alike
  rw [h] at twins
  cases twins with
  | ok related =>
      obtain ⟨inBlock, alike⟩ := related
      have opens := prepareRoot_ensures.ok h
      have fresh := opens.enters.1
      have given : Machine.gasOf [root] = gas.toNat := by
        rw [fresh]
        rfl
      have nothing : Machine.Covered host.rules.gas start gas.toNat gas.toNat [] l.world :=
        Machine.covered_nil (Nat.le_refl _) slots
      refine ⟨Machine.twins_cons rfl inBlock (by simp) alike, protects_of_prepareRoot kept h, ?_⟩
      rw [Machine.Backed, given, opens.saved]
      exact ⟨(nothing.renew coded kept (prepareRoot_renews.ok h)).enter fresh, nothing⟩

theorem refund_nonneg_of_runRoot {nonce gas : UInt64} {start : World} {s t : Session}
    {before : CallResult} (metered : host.rules.NetMetered) (small : gas.toNat ≤ 2 ^ 60)
    (coded : start.Coded) (alike : Alike start [] [] 0 s.ledger s.ledger)
    (kept : start.KeepsCode s.ledger.world)
    (slots : ∀ place, s.ledger.world.slot? place = start.slot? place)
    (h : runRoot host block message nonce gas s = .ok before t) (success : before.success = true) :
    0 ≤ before.refund.toInt := by
  obtain ⟨prepared, u, prepares, h⟩ := bind_eq_ok.mp h
  have set := (ofJournaled_ok prepares).1
  cases prepared with
  | finished answer =>
      obtain ⟨rfl, -⟩ := pure_eq_ok.mp h
      have answers : answer.Answers _ _ _ _ := prepareRoot_ensures.ok set
      rw [answers.bare.refund]
      exact Int.le_refl _
  | enter root =>
      have accounted := accounted_of_prepareRoot coded alike kept slots set u.watch
      exact Machine.refund_nonneg_of_run metered small coded accounted (ofOutcome_ok h).1 success

/-- Where the counter of the frames is not negative, nor is it with the refund for each account that
is deleted, and then the clamp does nothing. -/
theorem refundOf_of_nonneg {rules : Rules} {before : CallResult} (gasLimit : UInt64)
    (success : before.success = true) (nonneg : 0 ≤ before.refund.toInt) :
    ¬ refundCounter rules before < 0 ∧
      refundOf rules gasLimit before =
        min (refundCounter rules before).toUInt64 ((gasLimit - before.gasLeft) / 2) := by
  have counter : 0 ≤ (refundCounter rules before).toInt := by
    have perAccount := Gas.asRefund_nonneg rules.gas.selfDestructRefund
    have deleted : 0 ≤ (Gas.asRefund rules.gas.selfDestructRefund).toInt * before.destroyed.length :=
      Int.mul_nonneg perAccount (Int.natCast_nonneg _)
    refine Gas.addRefund_nonneg nonneg ?_
    rw [Int64.toInt_maxValue, Int64.toInt_ofInt_of_le (by omega) (by omega)]
    omega
  have positive : ¬ refundCounter rules before < 0 := by
    rw [Int64.lt_iff_toInt_lt]
    exact Int.not_lt.mpr counter
  exact ⟨positive, by rw [refundOf, if_pos success, Gas.cappedRefund, if_neg positive]⟩

/-- Under the rules of Constantinople and Istanbul, on a world in which only accounts with code hold
anything in their slots, the refund counters of all frames together are at least the clearing refund
for each slot that held something before the message and holds nothing now: at the head of every
iteration of the run, though the counter of a single frame may be negative and that of a frame that
fails is dropped. So the counter of an outermost frame that succeeds is not negative, and what is paid
back is never clamped at zero. -/
theorem refunds_cover_cleared_slots {fork : Fork}
    (net : fork = .constantinople ∨ fork = .istanbul) (blockHash : UInt64 → Option Hash)
    (block : Block) (message : Message) (world : World) (watch : Watch)
    (small : message.gasLimit.toNat ≤ 2 ^ 60)
    (coded : world.Coded) :
    let host := Host.ofRules (.ofFork fork) blockHash
    let opened := (Ledger.ofWorld world).checkpoint.bumpNonce message.caller
    let nonce := (Ledger.ofWorld world).nonce message.caller
    let gas := message.gasLimit - intrinsicGas host message
    intrinsicGas host message ≤ message.gasLimit →
    (∀ root l' n m, prepareRoot host block message nonce gas opened = .ok (.enter root) l' →
      Machine.iterate host n ⟨l', [root], watch⟩ = .more m →
      (host.rules.gas.sstoreClearRefund.toNat * m.ledger.cleared.length : Int) ≤
        Machine.refunds m.frames) ∧
    ∀ before t, runRoot host block message nonce gas ⟨opened, watch⟩ = .ok before t →
      before.success = true →
      0 ≤ before.refund.toInt ∧ ¬ refundCounter host.rules before < 0 ∧
      refundOf host.rules message.gasLimit before =
        min (refundCounter host.rules before).toUInt64
          ((message.gasLimit - before.gasLeft) / 2) := by
  intro host opened nonce gas paid
  have metered : host.rules.NetMetered := Rules.netMetered_ofFork net
  have within : gas.toNat ≤ 2 ^ 60 := by
    have less : gas.toNat = message.gasLimit.toNat - (intrinsicGas host message).toNat :=
      UInt64.toNat_sub_of_le _ _ paid
    omega
  have bisim : Bisimulation host.rules (Alike world [] []) := Alike.bisimulation fun _ _ => rfl
  have alike : Alike world [] [] 0 opened opened :=
    bisim.modifyAccount (.opened rfl (remembers_ofWorld world) (remembers_ofWorld world)) _ _
  have kept : world.KeepsCode opened.world := .of_same (code_bumpNonce _ _)
  have slots (place : Slot) : opened.world.slot? place = world.slot? place := by
    simp [opened, Ledger.bumpNonce, Ledger.modifyAccount, Ledger.ofWorld]
  refine ⟨fun root l' n m set reached => ?_, fun before t ran success => ?_⟩
  · have accounted := accounted_of_prepareRoot coded alike kept slots set watch
    exact (Machine.accounted_of_iterate metered within coded accounted reached).cleared_le
  · have nonneg := refund_nonneg_of_runRoot (s := ⟨opened, watch⟩) metered within coded alike kept
      slots ran success
    exact ⟨nonneg, refundOf_of_nonneg message.gasLimit success nonneg⟩

/-- A contract clears two slots and calls another one for it that fills the first of them again, so
that the counter of the inner frame is negative. -/
theorem refunds_cover_cleared_slots_refilled :
    let host := Host.ofRules (.ofFork .istanbul) fun _ => none
    let clears : Account := ⟨0, 0, ⟨#[0x60, 0, 0x60, 0, 0x55, 0x60, 0, 0x60, 1, 0x55, 0x60, 0, 0x60,
      0, 0x60, 0, 0x60, 0, 0x60, 8, 0x61, 0x80, 0, 0xf4, 0]⟩, 0⟩
    let fills : Account := ⟨0, 0, ⟨#[0x60, 1, 0x60, 0, 0x55, 0]⟩, 0⟩
    let accounts := (World.empty.setAccount 7 (some clears)).setAccount 8 (some fills)
    let world := (accounts.setSlot (7, 0) (some 5)).setSlot (7, 1) (some 5)
    let message : Message := ⟨2, some 7, 0, ByteArray.empty, 200000, 0⟩
    let opened := (Ledger.ofWorld world).checkpoint.bumpNonce message.caller
    let nonce := (Ledger.ofWorld world).nonce message.caller
    let gas := message.gasLimit - intrinsicGas host message
    let watch := Watch.start false none
    world.Coded ∧ message.gasLimit.toNat ≤ 2 ^ 60 ∧ intrinsicGas host message ≤ message.gasLimit ∧
    (∃ root l' m, prepareRoot host .genesis message nonce gas opened = .ok (.enter root) l' ∧
      Machine.iterate host 16 ⟨l', [root], watch⟩ = .more m ∧
      m.frames.map (·.refund.toInt) = [-15000, 30000] ∧ m.ledger.cleared = [(7, 1)] ∧
      (host.rules.gas.sstoreClearRefund.toNat * m.ledger.cleared.length : Int) ≤
        Machine.refunds m.frames) ∧
    ∃ before t, runRoot host .genesis message nonce gas ⟨opened, watch⟩ = .ok before t ∧
      before.success = true ∧ before.refund.toInt = 15000 ∧
      refundOf host.rules message.gasLimit before =
        min (refundCounter host.rules before).toUInt64
          ((message.gasLimit - before.gasLeft) / 2) := by
  intro host clears fills accounts world message opened nonce gas watch
  have bare : accounts.Coded := fun place held => absurd (by rfl) held
  have coded : world.Coded := (bare.setSlot (7, 0) 5 rfl).setSlot (7, 1) 5 rfl
  have small : message.gasLimit.toNat ≤ 2 ^ 60 := by decide
  have paid : intrinsicGas host message ≤ message.gasLimit := by decide
  obtain ⟨covers, clamped⟩ := refunds_cover_cleared_slots (.inr rfl) (fun _ => none) .genesis message
    world watch small coded paid
  have found : (visit? host .genesis message nonce gas watch 16 opened).any
      (fun m => m.frames.map (·.refund.toInt) = [-15000, 30000] && m.ledger.cleared = [(7, 1)]) =
        true := by decide +kernel
  obtain ⟨root, l', m, set, reached, seen⟩ := reached_of_visit? found
  simp only [Bool.and_eq_true, decide_eq_true_eq] at seen
  have ends : (answer (runRoot host .genesis message nonce gas) ⟨opened, watch⟩).toOption.any
      (fun before => before.success && before.refund.toInt = 15000) = true := by decide +kernel
  obtain ⟨before, t, ran, ended⟩ := ok_of_answer ends
  simp only [Bool.and_eq_true, decide_eq_true_eq] at ended
  exact ⟨coded, small, paid, ⟨root, l', m, set, reached, seen.1, seen.2,
    covers root l' 16 m set reached⟩, before, t, ran, ended.1, ended.2,
    (clamped before t ran ended.1).2.2⟩

end Engine
end EvmEngine
