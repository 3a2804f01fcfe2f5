import EvmEngine.Proofs.Engine.Code
import EvmEngine.Proofs.Machine.Chronicle

/-!
What a message reports. The logs and the accounts to be deleted that come back with a success are
those of the deeds that survive in the chronicle of its run, and none of those accounts is left.
-/

namespace EvmEngine
namespace Engine

open Effects Deed World

variable {host : Host} {block : Block} {message : Message}

/-- The chronicle of the run of an outermost frame, empty where none is entered. -/
def rootChronicle (host : Host) (block : Block) (message : Message) (nonce gas : UInt64)
    (s : Session) : Chronicle :=
  match prepareRoot host block message nonce gas s.ledger with
  | .ok (.enter root) l => Machine.chronicle host root l s.watch
  | .ok (.finished _) _ | .error _ _ => Chronicle.empty

/-- The chronicle of the run that a message makes. -/
def chronicle (host : Host) (block : Block) (message : Message) (s : Session) : Chronicle :=
  rootChronicle host block message (s.ledger.nonce message.caller)
    (message.gasLimit - intrinsicGas host message)
    ⟨s.ledger.checkpoint.bumpNonce message.caller, s.watch⟩

theorem told_ofOutcome {outcome : RunOutcome} {deeds : List Deed} {t : Session}
    {before : CallResult}
    (told : ∀ result, outcome.result = .ok result → result.success = true →
      Told deeds result.logs result.destroyed)
    (h : ofOutcome outcome = .ok before t) (success : before.success = true) :
    Told deeds before.logs before.destroyed :=
  told before (ofOutcome_ok h).1 success

theorem told_runRoot {nonce gas : UInt64} {s t : Session} {before : CallResult}
    (h : runRoot host block message nonce gas s = .ok before t) (success : before.success = true) :
    Told (rootChronicle host block message nonce gas s).survivors before.logs before.destroyed := by
  obtain ⟨prepared, u, prepares, h⟩ := bind_eq_ok.mp h
  have follows := (ofJournaled_ensures prepareRoot_ensures).ok prepares
  have set := ofJournaled_ok prepares
  simp only [rootChronicle, set.1]
  cases prepared with
  | finished answer =>
      obtain ⟨rfl, -⟩ := pure_eq_ok.mp h
      exact follows.bare.told
  | enter root =>
      obtain ⟨fresh, -, -⟩ := follows.enters
      have tells : root.Tells [] := fresh ▸ told_nil
      rw [← set.2]
      exact told_ofOutcome (fun result => Machine.told_chronicle tells) h success

theorem card_eraseDups (accounts : List Address) :
    accounts.eraseDups.length = accounts.toFinset.card := by
  rw [← List.toFinset_card_of_nodup (nodup_eraseDups accounts)]
  congr 1
  ext a
  simp

/-- What a transaction that succeeds reports is what its frames did that finished with success, as
did every frame around them: each log once and in the order of execution, and each account that
destroyed itself once, where it first did. The refund for these counts each account once, and none of
them is left: there is no account, no code and no storage. -/
theorem reports_survivors {s s' : Session} {result : CallResult}
    (h : transact host block message s = .ok result s') (success : result.success = true) :
    result.logs.toList = (chronicle host block message s).logs ∧
    result.destroyed = (chronicle host block message s).destroyed.eraseDups ∧
    result.destroyed.Nodup ∧
    (∃ before t, runRoot host block message (s.ledger.nonce message.caller)
        (message.gasLimit - intrinsicGas host message)
        ⟨s.ledger.checkpoint.bumpNonce message.caller, s.watch⟩ = .ok before t ∧
      result = settle host.rules message.gasLimit before ∧
      refundCounter host.rules before = Gas.addRefund before.refund (.ofInt (min
        ((Gas.asRefund host.rules.gas.selfDestructRefund).toInt *
          (chronicle host block message s).destroyed.toFinset.card) Int64.maxValue.toInt))) ∧
    ∀ a ∈ result.destroyed, s'.ledger.hasAccount a = false ∧
      s'.ledger.code a = ByteArray.empty ∧ ∀ key, s'.ledger.load a key = 0 := by
  obtain ⟨before, t, ran, rfl, world⟩ := transact_leaves h
  have told := told_runRoot ran success
  have destroyed : before.destroyed = (chronicle host block message s).destroyed.eraseDups :=
    told.destroyed
  refine ⟨told.logs, destroyed, ?_, ⟨before, t, ran, rfl, ?_⟩, fun a member => ?_⟩
  · show before.destroyed.Nodup
    rw [destroyed]
    exact nodup_eraseDups _
  · rw [refundCounter, destroyed, card_eraseDups]
  · rw [if_pos success] at world
    have absent : Absent a s'.ledger.world := world ▸ Ledger.absent_deleteAll member t.ledger
    refine ⟨?_, ?_, fun key => ?_⟩
    · rw [Ledger.hasAccount, absent.account, Option.isSome_none]
    · rw [Ledger.code, absent.account, Option.elim_none]
    · rw [Ledger.load, absent.slots, Option.getD_none]

/-- A contract that writes a log, calls one that writes a log and reverts, and calls one twice that
writes a log and destroys itself. -/
theorem reports_survivors_nested :
    let host := Host.ofRules (.ofFork .istanbul) fun _ => none
    let caller : Account := ⟨0, 0, ⟨#[0x60, 0, 0x60, 0, 0xa0,
      0x60, 0, 0x60, 0, 0x60, 0, 0x60, 0, 0x60, 0, 0x60, 8, 0x61, 0x40, 0, 0xf1,
      0x60, 0, 0x60, 0, 0x60, 0, 0x60, 0, 0x60, 0, 0x60, 9, 0x61, 0x40, 0, 0xf1,
      0x60, 0, 0x60, 0, 0x60, 0, 0x60, 0, 0x60, 0, 0x60, 9, 0x61, 0x40, 0, 0xf1]⟩, 0⟩
    let reverts : Account := ⟨0, 0, ⟨#[0x60, 5, 0x60, 0, 0x60, 0, 0xa1, 0x60, 0, 0x60, 0, 0xfd]⟩, 0⟩
    let destroys : Account := ⟨0, 0, ⟨#[0x60, 0, 0x60, 0, 0xa0, 0x60, 2, 0xff]⟩, 0⟩
    let world := ((World.empty.setAccount 7 (some caller)).setAccount 8 (some reverts)).setAccount 9
      (some destroys)
    let message : Message := ⟨2, some 7, 0, ByteArray.empty, 200000, 0⟩
    let s : Session := ⟨.ofWorld world, Watch.start false none⟩
    let c := chronicle host .genesis message s
    c.logs.map Log.address = [7, 9, 9] ∧ c.destroyed = [9, 9] ∧
    ∃ result s', transact host .genesis message s = .ok result s' ∧ result.success = true ∧
      result.logs.toList = c.logs ∧ result.destroyed = [9] ∧ s'.ledger.hasAccount 9 = false := by
  intro host caller reverts destroys world message s c
  obtain ⟨logs, destroyed, succeeds⟩ : c.logs.map Log.address = [7, 9, 9] ∧
      c.destroyed = [9, 9] ∧
      (answer (transact host .genesis message) s).toOption.any CallResult.success = true := by
    decide +kernel
  refine ⟨logs, destroyed, ?_⟩
  obtain ⟨result, s', done, success⟩ := ok_of_answer succeeds
  obtain ⟨reported, deleted, -, -, gone⟩ := reports_survivors done success
  have once : result.destroyed = [9] := by
    rw [deleted, show (chronicle host .genesis message s).destroyed = [9, 9] from destroyed]
    decide
  exact ⟨result, s', done, success, reported, once, (gone 9 (by simp [once])).1⟩

end Engine
end EvmEngine
