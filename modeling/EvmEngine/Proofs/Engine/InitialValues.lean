import EvmEngine.Proofs.Engine.Lockstep
import EvmEngine.Proofs.Ledger.Snapshots

/-!
What a transaction can tell of the checkpoints that are open around it: where writes are metered net,
the values that the slots had when the outermost of these was opened, and nothing else. They are the
values at the start of the transaction unless an earlier one, or whatever else was done in that
checkpoint, has changed them since.
-/

namespace EvmEngine

open Effects

namespace Engine

/-- Transactions on ledgers with the same contents have the same result and leave the same contents,
if the slots have the same initial values or these are not looked at. -/
theorem transact_parallel (host : Host) (block : Block) (message : Message) (watch : Watch)
    {l l' : Ledger} (remembers : l.Remembers) (remembers' : l'.Remembers)
    (world : l'.world = l.world)
    (initial : host.rules.sstoreMetering ≠ .legacy →
      ∀ a key, l'.initialValue a key = l.initialValue a key) :
    Same (Session.Twins Eq fun k k' => k'.world = k.world)
      (transact host block message ⟨l, watch⟩) (transact host block message ⟨l', watch⟩) := by
  simp only [transact, checked]
  cases checkIntrinsic host message with
  | error e => exact .error ⟨rfl, world⟩
  | ok intrinsic =>
      have ran := execute_alike host Watch.bisimulation_eq block message intrinsic ⟨l, watch⟩
        ⟨l', watch⟩ rfl remembers remembers' world initial
      exact bracket_parallel ran (fun _ _ h => h.closes_commit) fun _ _ h => h.closes_rollback

/-- A transaction does the same under checkpoints that are still open as on the same accounts and
slots without any, whatever was done under those, unless it meters writes net and a slot does not
have the value it had when the outermost of them was opened. -/
theorem transact_under_checkpoints (host : Host) (block : Block) (message : Message)
    (watch : Watch) (w : World) (ops : List StoreOp)
    (unchanged : host.rules.sstoreMetering ≠ .legacy →
      ∀ a key, ((Ledger.ofWorld w).performAll ops).2.initialValue a key =
        ((Ledger.ofWorld w).performAll ops).2.load a key) :
    let enclosed := ((Ledger.ofWorld w).performAll ops).2
    let free := Ledger.ofWorld enclosed.world
    answer (transact host block message) ⟨enclosed, watch⟩ =
        answer (transact host block message) ⟨free, watch⟩ ∧
      (endState (transact host block message) ⟨enclosed, watch⟩).ledger.world =
        (endState (transact host block message) ⟨free, watch⟩).ledger.world := by
  intro enclosed free
  have remembers := (Ledger.remembers_ofWorld w).performAll ops
  have initial (a : Address) (key : Word) : free.initialValue a key = enclosed.load a key := by
    rw [(Ledger.remembers_ofWorld enclosed.world).initialValue_eq]
    rfl
  have both := transact_parallel host block message watch
    (Ledger.remembers_ofWorld enclosed.world) remembers rfl fun net a key =>
      (unchanged net a key).trans (initial a key).symm
  refine ⟨both.answer_eq, ?_⟩
  exact both.endState (P := fun s s' => s'.ledger.world = s.ledger.world)
    (fun _ _ _ twins => twins.ledger) fun _ _ _ twins => twins.ledger

/-- A contract that writes to a slot, called below a checkpoint under which only a balance has
changed. -/
theorem transact_under_checkpoints_credited :
    let host := Host.ofRules (.ofFork .istanbul) fun _ => none
    let contract : Account := ⟨0, 0, ⟨#[0x60, 3, 0x60, 0, 0x55, 0]⟩, 0⟩
    let world := (World.empty.setAccount 0xaa (some contract)).setSlot (0xaa, 0) (some 1)
    let message : Message := ⟨0xcc, some 0xaa, 0, ByteArray.empty, 100000, 0⟩
    let enclosed := ((Ledger.ofWorld world).performAll [.checkpoint, .credit 0xcc 5]).2
    enclosed.depth = 1 ∧
    ((answer (transact host .genesis message) ⟨enclosed, Watch.start false none⟩).toOption.map
      CallResult.gasUsed) = some 26006 ∧
    ((answer (transact host .genesis message)
      ⟨.ofWorld enclosed.world, Watch.start false none⟩).toOption.map CallResult.gasUsed) =
      some 26006 := by
  intro host contract world message enclosed
  have unchanged (a : Address) (key : Word) : enclosed.initialValue a key = enclosed.load a key := by
    have untouched : enclosed.initial = ∅ := rfl
    rw [Ledger.initialValue, untouched, Std.ExtTreeMap.getElem?_empty]
  have used : ((answer (transact host .genesis message)
      ⟨enclosed, Watch.start false none⟩).toOption.map CallResult.gasUsed) = some 26006 := by
    decide +kernel
  have same := (transact_under_checkpoints host .genesis message (Watch.start false none) world
    [.checkpoint, .credit 0xcc 5] fun _ => unchanged).1
  exact ⟨rfl, used, (congrArg (fun a => a.toOption.map CallResult.gasUsed) same).symm.trans used⟩

/-- The second of two transactions under one checkpoint, which writes to a slot that the first one
wrote to, is priced against what the slot held before the first. On the same accounts and slots
without a checkpoint it is priced against what it holds when the transaction begins. -/
theorem priced_across_transactions :
    let host := Host.ofRules (.ofFork .istanbul) fun _ => none
    let contract : Account := ⟨0, 0, ⟨#[0x60, 0, 0x35, 0x60, 0, 0x55, 0]⟩, 0⟩
    let sender : Account := { Account.blank with balance := 0xffffffff }
    let world := ((World.empty.setAccount 0xcc (some sender)).setAccount 0xaa (some contract)).setSlot
      (0xaa, 0) (some 1)
    let message (value : UInt8) : Message :=
      ⟨0xcc, some 0xaa, 0, ⟨Array.replicate 31 0 ++ #[value]⟩, 100000, 0⟩
    let opened : Session := ⟨(Ledger.ofWorld world).checkpoint, Watch.start false none⟩
    let enclosed := endState (transact host .genesis (message 2)) opened
    let free : Session := ⟨.ofWorld enclosed.ledger.world, enclosed.watch⟩
    free.ledger.world = enclosed.ledger.world ∧ free.ledger.depth = 0 ∧ enclosed.ledger.depth = 1 ∧
    ((answer (transact host .genesis (message 3)) free).toOption.map CallResult.gasUsed) =
      some 26149 ∧
    ((answer (transact host .genesis (message 3)) enclosed).toOption.map CallResult.gasUsed) =
      some 21949 := by
  intro host contract sender world message opened enclosed free
  -- Stated of any world, so that neither run is unfolded for it.
  have contents (w : World) : (Ledger.ofWorld w).world = w ∧ (Ledger.ofWorld w).depth = 0 :=
    ⟨rfl, rfl⟩
  obtain ⟨same, closed⟩ := contents enclosed.ledger.world
  refine ⟨same, closed, ?_⟩
  decide +kernel

end Engine
end EvmEngine
