import EvmEngine.Proofs.Instruction.Refunds
import EvmEngine.Proofs.Instruction.Storage
import EvmEngine.Proofs.Ledger.Cleared
import EvmEngine.Proofs.Machine.Code
import EvmEngine.Proofs.Machine.Gas
import EvmEngine.Proofs.Machine.Layers
import EvmEngine.Proofs.Machine.Lockstep

/-!
The refund counters of the open frames, added up. Where writes are metered net the sum covers what is
granted for the slots that are cleared in the present world, and that of the frames below a frame what
is granted in the world that its checkpoint goes back to; so it does not matter whether a frame hands
its counter on or drops it. In the other direction the gas of the run pays for the counters, so that
none of them ever leaves the range of its machine integer.
-/

namespace EvmEngine

open Effects Ledger World

/-- Rules that price a write against the value at the start of the transaction. -/
structure Rules.NetMetered (rules : Rules) : Prop where
  net : rules.sstoreMetering ≠ .legacy
  refundable : rules.gas.Refundable
  covers : rules.gas.CoversStipend

namespace Machine

/-- The refund counters of frames together. -/
def refunds (frames : List Frame) : Int :=
  (frames.map fun f => f.refund.toInt).sum

theorem refunds_cons (f : Frame) (below : List Frame) :
    refunds (f :: below) = f.refund.toInt + refunds below :=
  List.sum_cons

/-- The refund counters of frames cover what is granted for the slots that are cleared in a world, and
together with all that the slots can still bring they have been paid for: each three of them with one
of the gas that the run began with and that is not left. -/
structure Covered (gas : GasSchedule) (start : World) (limit left : Nat) (frames : List Frame)
    (w : World) : Prop where
  granted : tally (Gas.granted gas) start w ≤ refunds frames
  paid : refunds frames + tally (Gas.reserve gas) start w + 3 * left ≤ 3 * limit

namespace Covered

variable {gas : GasSchedule} {start w w' : World} {limit left less : Nat} {frames below : List Frame}
  {f f' parent parent' : Frame}

theorem nonneg (h : Covered gas start limit left frames w) : 0 ≤ refunds frames :=
  Int.le_trans (tally_nonneg (Gas.granted_nonneg gas)) h.granted

theorem refunds_le (h : Covered gas start limit left frames w) : refunds frames ≤ 3 * limit := by
  have paid := h.paid
  have reserved : 0 ≤ tally (Gas.reserve gas) start w := tally_nonneg (Gas.reserve_nonneg gas)
  omega

theorem spend (h : Covered gas start limit left frames w) (le : less ≤ left) :
    Covered gas start limit less frames w := by
  have paid := h.paid
  exact ⟨h.granted, by omega⟩

theorem replace (h : Covered gas start limit left (f :: below) w) (same : f'.refund = f.refund) :
    Covered gas start limit left (f' :: below) w := by
  have total : refunds (f' :: below) = refunds (f :: below) := by
    rw [refunds_cons, refunds_cons, same]
  exact ⟨total ▸ h.granted, total ▸ h.paid⟩

theorem congr (h : Covered gas start limit left frames w)
    (slots : ∀ place, w'.slot? place = w.slot? place) :
    Covered gas start limit left frames w' :=
  ⟨tally_congr (Gas.granted gas) slots ▸ h.granted,
    tally_congr (Gas.reserve gas) slots ▸ h.paid⟩

/-- The slots that are cleared without a refund were empty at the start. -/
theorem renew (h : Covered gas start limit left frames w) (coded : start.Coded)
    (code : start.KeepsCode w) (renews : w.Renews w') :
    Covered gas start limit left frames w' := by
  have granted : tally (Gas.granted gas) start w' ≤ tally (Gas.granted gas) start w := by
    refine renews.tally_le (fun now => ?_) coded code
    simp [Gas.granted]
  have reserve : tally (Gas.reserve gas) start w' ≤ tally (Gas.reserve gas) start w := by
    refine renews.tally_le (fun now => ?_) coded code
    simpa [Gas.reserve] using Gas.reserve_nonneg gas 0 now
  have paid := h.paid
  exact ⟨Int.le_trans granted h.granted, by omega⟩

/-- A write to a slot, whose refund is counted in full. -/
theorem store {rules : Rules} {key value : Word} {l l' : Ledger} (metered : rules.NetMetered)
    (small : limit ≤ 2 ^ 60) (initial : ∀ place, l.initialValue place.1 place.2 = start.value place)
    (h : Covered rules.gas start limit (gasOf (f :: below)) (f :: below) l.world)
    (rest : Covered rules.gas start limit left below w)
    (stored : Focus.Stored rules key value ⟨f, l⟩ ⟨f', l'⟩) :
    Covered rules.gas start limit (gasOf (f' :: below)) (f' :: below) l'.world := by
  let place : Slot := (f.env.address, key)
  have price : Focus.price ⟨f, l⟩ rules key value =
      Gas.sstoreCost rules (start.value place) (l.world.value place) value := by
    rw [← initial]
    rfl
  have gas : f'.gas.toNat + _ ≤ f.gas.toNat := stored.gas
  have refund : f'.refund = Gas.addRefund f.refund _ := stored.refund
  have world : l'.world = l.world.setSlot place (World.stored value) := by
    rw [show l' = _ from stored.ledger]
    exact world_putSlot ..
  rw [price] at gas refund
  have brings := Gas.granted_le_refund metered.net metered.refundable (start.value place)
    (l.world.value place) value
  have costs := Gas.refund_le_reserve metered.net metered.refundable (start.value place)
    (l.world.value place) value
  generalize Gas.sstoreCost rules (start.value place) (l.world.value place) value = cost at *
  have granted_eq := tally_setSlot (Gas.granted rules.gas) start l.world place value
  have reserve_eq := tally_setSlot (Gas.reserve rules.gas) start l.world place value
  have granted_nonneg : 0 ≤ tally (Gas.granted rules.gas) start l'.world :=
    tally_nonneg (Gas.granted_nonneg _)
  have reserve_nonneg : 0 ≤ tally (Gas.reserve rules.gas) start l'.world :=
    tally_nonneg (Gas.reserve_nonneg _)
  rw [← world] at granted_eq reserve_eq
  have least := rest.nonneg
  have most := rest.refunds_le
  obtain ⟨granted, paid⟩ := h
  simp only [refunds_cons, gasOf, List.foldr_cons] at granted paid
  -- What all frames have counted is between zero and the bound, so that one counter fits.
  have counted := Gas.toInt_addRefund (a := f.refund) (b := cost.refund) (by omega) (by omega)
  rw [← refund] at counted
  constructor
  · rw [refunds_cons, counted]
    omega
  · rw [refunds_cons, counted]
    simp only [gasOf, List.foldr_cons]
    omega

/-- A frame that takes over the counter of a child takes it over in full. -/
theorem merge {result : CallResult} {target : ReturnTarget} {left' : Nat} (small : limit ≤ 2 ^ 60)
    (h : Covered gas start limit left (f :: parent :: below) w)
    (rest : Covered gas start limit left' below w') (success : result.success = true)
    (hands : result.refund = f.refund) :
    Covered gas start limit left (parent.resumed result target :: below) w := by
  have least := rest.nonneg
  have most := rest.refunds_le
  have nonneg := h.nonneg
  have refunds_le := h.refunds_le
  simp only [refunds_cons] at nonneg refunds_le
  have refund := Frame.refund_resumed parent result target
  rw [if_pos success, hands] at refund
  have counted := Gas.toInt_addRefund (a := parent.refund) (b := f.refund) (by omega) (by omega)
  have total : refunds (parent.resumed result target :: below) = refunds (f :: parent :: below) := by
    rw [refunds_cons, refunds_cons, refunds_cons, refund, counted]
    omega
  exact ⟨total ▸ h.granted, total ▸ h.paid⟩

/-- A frame that is entered has counted nothing. -/
theorem enter {child : Frame} {given : UInt64} (h : Covered gas start limit left below w)
    (fresh : child = Frame.start child.env child.target child.code given) :
    Covered gas start limit left (child :: below) w := by
  have none : child.refund = 0 := by
    rw [fresh]
    rfl
  have total : refunds (child :: below) = refunds below := by
    rw [refunds_cons, none]
    exact Int.zero_add _
  exact ⟨total ▸ h.granted, total ▸ h.paid⟩

/-- A frame that takes nothing over but gas and output. -/
theorem resume {result : CallResult} {target : ReturnTarget}
    (h : Covered gas start limit left (f :: below) w)
    (nothing : result.success = true → result.refund = 0) :
    Covered gas start limit left (f.resumed result target :: below) w := by
  refine h.replace ?_
  rw [Frame.refund_resumed]
  split
  · next success => rw [nothing success, Gas.addRefund_zero]
  · rfl

end Covered

variable {host : Host} {m m' : Machine} {start : World} {limit : Nat}

/-- The counters are covered, those of all frames and those of the frames below each one. -/
abbrev Backed (host : Host) (start : World) (limit : Nat) (m : Machine) : Prop :=
  Layered (Covered host.rules.gas start limit (gasOf m.frames)) m.frames m.ledger.world m.ledger.saved

/-- An iteration keeps the counters covered. -/
theorem Step.backed (metered : host.rules.NetMetered) (small : limit ≤ 2 ^ 60)
    (coded : start.Coded) (step : Step host m m')
    (initial : ∀ place, m.ledger.initialValue place.1 place.2 = start.value place)
    (protects : Protects start m.frames m.ledger.world m.ledger.saved)
    (h : Backed host start limit m) : Backed host start limit m' := by
  have less := (step.gas metered.covers).total
  have spent := h.mono fun _ _ covered => covered.spend less
  cases step with
  | @ran f f' below l l' watch watch' control running stepped quiet =>
      have kept := Focus.Keeps.of_step_ok stepped
      rw [Backed, kept.saved]
      refine spent.replace ?_
      cases Focus.touches_of_step stepped with
      | nothing refund slots => exact (spent.top.replace refund).congr slots
      | slot key value stored =>
          obtain ⟨w, rest, saved⟩ := h.saved_eq
          rw [Backed, saved] at h
          exact h.top.store metered small initial h.leave.top stored
  | @answered f f₁ f' below l l₁ l' _ _ control _ _ result target running stepped asks set absorbed =>
      obtain ⟨price, pays⟩ := Focus.step_asks stepped asks
      obtain rfl : l₁ = l := pays.ledger
      have answers := Focus.step_answered stepped asks set
      have saved : l'.saved = l₁.saved := answers.saved.trans (Control.saved_opening ..)
      obtain rfl := Frame.absorb_eq_ok absorbed
      rw [Backed, saved]
      have top := (spent.top.replace pays.leaves.refund).renew coded protects.keepsCode
        (asks.renews.ok set)
      exact spent.replace (top.resume fun _ => answers.bare.refund)
  | @entered f f₁ child below l l₁ l' _ _ control _ _ _ running stepped asks set =>
      obtain ⟨price, pays⟩ := Focus.step_asks stepped asks
      obtain rfl : l₁ = l := pays.ledger
      have opens := Focus.step_entered stepped asks set
      have saved : l'.saved = (control.opening host.rules f₁.env l₁).world :: l₁.saved := by
        rw [opens.saved, Control.saved_opening]
      have asked := spent.top.replace pays.leaves.refund
      have opened := asked.renew coded protects.keepsCode
        (control.renews_opening host.rules f₁.env l₁)
      have entered := (asked.renew coded protects.keepsCode (asks.renews.ok set)).enter
        opens.enters.1.fresh
      rw [Backed, saved]
      exact (spent.replace opened).enter entered
  | @returned f parent parent' below l l' _ result ended completed absorbed =>
      obtain ⟨w, rest, saved⟩ := h.saved_eq
      obtain rfl := Frame.absorb_eq_ok absorbed
      dsimp only at saved
      rw [saved] at spent
      have slots := (Frame.complete_slots saved).ok completed
      rw [Backed, ((Frame.complete_ensures saved).ok completed).1]
      refine spent.leave.replace ?_
      cases success : result.success with
      | true =>
          rw [if_pos success] at slots
          obtain ⟨v, older, outer⟩ := spent.leave.saved_eq
          rw [outer] at spent
          have hands := (Frame.complete_success completed success).2.2
          exact (spent.top.congr slots).merge small spent.leave.leave.top success hands
      | false =>
          rw [if_neg (by simp [success])] at slots
          rw [slots]
          exact spent.leave.top.resume fun success' => by simp [success] at success'

/-- The head of an iteration of a run that began on a world without open checkpoints. -/
structure Accounted (host : Host) (block : Block) (start : World) (limit : Nat) (m : Machine) :
    Prop where
  twins : m.Twins block Eq (Alike start [] []) m
  protects : Protects start m.frames m.ledger.world m.ledger.saved
  backed : Backed host start limit m

/-- The initial values are those of the world that the run began on. -/
theorem Accounted.initialValue {block : Block} (h : Accounted host block start limit m)
    (place : Slot) : m.ledger.initialValue place.1 place.2 = start.value place := by
  obtain ⟨inner, -, saved, -⟩ := h.twins.ledger.saved
  rw [h.twins.ledger.remembers.initialValue_of_saved saved]
  rfl

theorem Accounted.advance {block : Block} (metered : host.rules.NetMetered) (small : limit ≤ 2 ^ 60)
    (coded : start.Coded) (h : Accounted host block start limit m)
    (advanced : m.advance host = .more m') : Accounted host block start limit m' := by
  have step := step_of_more advanced
  -- A machine is its own twin, and its ledger still remembers the values at the start.
  have twins := advance_twins (Alike.bisimulation fun _ _ => rfl) Watch.bisimulation_eq
    (show host.AgreesOn host.blockHash block from fun _ => rfl) h.twins
  have same : m.advance (host.withHashes host.blockHash) = m.advance host := rfl
  rw [same, advanced] at twins
  cases twins with
  | more twins =>
      exact ⟨twins, step.protects h.protects,
        step.backed metered small coded h.initialValue h.protects h.backed⟩

/-- The counters cover the refund that is granted for each slot that is cleared. -/
theorem Accounted.cleared_le {block : Block} (h : Accounted host block start limit m) :
    (host.rules.gas.sstoreClearRefund.toNat * m.ledger.cleared.length : Int) ≤ refunds m.frames := by
  rw [mul_length_cleared _ h.initialValue]
  exact h.backed.top.granted

theorem accounted_of_iterate {block : Block} {n : Nat} (metered : host.rules.NetMetered)
    (small : limit ≤ 2 ^ 60) (coded : start.Coded) (h : Accounted host block start limit m)
    (reached : iterate host n m = .more m') : Accounted host block start limit m' :=
  (iterate_holds (fun _ _ advanced before => before.advance metered small coded advanced) n h).1 m'
    reached

/-- The counter of an outermost frame that succeeds is not negative. -/
theorem refund_nonneg_of_run {block : Block} {root : Frame} {l : Ledger} {watch : Watch}
    {result : CallResult} (metered : host.rules.NetMetered) (small : limit ≤ 2 ^ 60)
    (coded : start.Coded) (h : Accounted host block start limit ⟨l, [root], watch⟩)
    (answered : (run host root l watch).result = .ok result) (success : result.success = true) :
    0 ≤ result.refund.toInt := by
  simp only [run] at answered
  generalize iterationBound root.gas = n at answered
  obtain ⟨m', ended, -⟩ := finished_of_outcome answered
  obtain ⟨last, accounted, done⟩ := (iterate_holds
    (fun _ _ advanced before => before.advance metered small coded advanced) n h).2.1 _ _ ended
  obtain ⟨f, l, watch, rfl, -, completed⟩ := last_of_finished done
  have nonneg := accounted.backed.top.nonneg
  rw [(Frame.complete_success completed success).2.2]
  simpa [refunds] using nonneg

end Machine
end EvmEngine
