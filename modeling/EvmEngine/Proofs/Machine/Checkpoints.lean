import EvmEngine.Proofs.Machine.Step

/-!
The checkpoints of a run. While a tree of frames runs, each open frame has its checkpoint, above
those that were open before. However the run ends, these are closed again, and a run that does not
end in success leaves the world as it was when the outermost frame was entered.
-/

namespace EvmEngine
namespace Machine

open Effects

variable {host : Host} {m m' : Machine}

/-- What every iteration that goes on keeps holds at the head of each, and of the last one. -/
theorem iterate_holds {P : Machine → Prop} (keeps : ∀ m m', m.advance host = .more m' → P m → P m')
    (n : Nat) (h : P m) :
    (∀ m', iterate host n m = .more m' → P m') ∧
    (∀ result m', iterate host n m = .finished result m' →
      ∃ last, P last ∧ last.advance host = .finished result m') ∧
    ∀ e m', iterate host n m = .failed e m' →
      ∃ last, P last ∧ last.advance host = .failed e m' := by
  induction n generalizing m with
  | zero =>
      simp only [iterate]
      refine ⟨fun m' same => ?_, fun _ _ same => ?_, fun _ _ same => ?_⟩ <;> cases same
      exact h
  | succ n ih =>
      simp only [iterate]
      cases advanced : m.advance host with
      | more next => exact ih (keeps m next advanced h)
      | finished result last =>
          refine ⟨fun _ same => ?_, fun _ _ same => ?_, fun _ _ same => ?_⟩ <;> cases same
          exact ⟨m, h, advanced⟩
      | failed e last =>
          refine ⟨fun _ same => ?_, fun _ _ same => ?_, fun _ _ same => ?_⟩ <;> cases same
          exact ⟨m, h, advanced⟩

theorem iterate_keeps {P : Machine → Prop} (keeps : ∀ m m', Step host m m' → P m → P m')
    (n : Nat) (h : P m) :
    (∀ m', iterate host n m = .more m' → P m') ∧
    (∀ result m', iterate host n m = .finished result m' →
      ∃ last, P last ∧ last.advance host = .finished result m') ∧
    ∀ e m', iterate host n m = .failed e m' →
      ∃ last, P last ∧ last.advance host = .failed e m' :=
  iterate_holds (fun m m' advanced => keeps m m' (step_of_more advanced)) n h

/-- A run that gives a result is finished. -/
theorem finished_of_outcome {n : Nat} {result : CallResult}
    (answered : (iterate host n m).outcome.result = .ok result) :
    ∃ m', iterate host n m = .finished result m' ∧
      (iterate host n m).outcome.ledger = m'.ledger := by
  cases ended : iterate host n m with
  | more last =>
      rw [ended] at answered
      cases answered
  | failed e last =>
      rw [ended] at answered
      cases answered
  | finished answer m' =>
      rw [ended] at answered
      cases answered
      exact ⟨m', rfl, rfl⟩

/-- A run that gives a result has got to its last iteration. -/
theorem outcome_ok {P : Machine → Prop} {n : Nat} {result : CallResult}
    (keeps : ∀ m m', Step host m m' → P m → P m') (h : P m)
    (answered : (iterate host n m).outcome.result = .ok result) :
    ∃ last m', P last ∧ last.advance host = .finished result m' ∧
      (iterate host n m).outcome.ledger = m'.ledger := by
  obtain ⟨m', ended, ledger⟩ := finished_of_outcome answered
  obtain ⟨last, holds, done⟩ := (iterate_keeps keeps n h).2.1 result m' ended
  exact ⟨last, m', holds, done, ledger⟩

/-- A run that gives an error is not over yet, or its last iteration has failed. -/
theorem outcome_error {P : Machine → Prop} {n : Nat} {e : EngineError}
    (keeps : ∀ m m', Step host m m' → P m → P m') (h : P m)
    (failed : (iterate host n m).outcome.result = .error e) :
    (∃ last, iterate host n m = .more last) ∨
      ∃ last m', P last ∧ last.advance host = .failed e m' := by
  obtain ⟨-, -, stops⟩ := iterate_keeps keeps n h
  cases ended : iterate host n m with
  | more last => exact .inl ⟨last, rfl⟩
  | finished answer m' =>
      rw [ended] at failed
      cases failed
  | failed e' m' =>
      rw [ended] at failed
      cases failed
      obtain ⟨last, holds, done⟩ := stops e m' ended
      exact .inr ⟨last, m', holds, done⟩

theorem iterate_one (host : Host) (m : Machine) : iterate host 1 m = m.advance host := by
  cases advanced : m.advance host <;> simp only [iterate, advanced]

/-- The machine at the head of an iteration, where the run gets that far. -/
def after? (host : Host) (n : Nat) (m : Machine) : Option Machine :=
  match iterate host n m with
  | .more last => some last
  | .finished _ _ | .failed _ _ => none

theorem reached_of_after? {n : Nat} {test : Machine → Bool}
    (h : (after? host n m).any test = true) :
    ∃ last, iterate host n m = .more last ∧ test last = true := by
  simp only [after?] at h
  split at h
  · next last reached => exact ⟨last, reached, h⟩
  · cases h
  · cases h

/-- Each open frame has a checkpoint. That of the outermost frame goes back to the world given, and
those below it are as given. -/
def Guards (w : World) (base : List World) (m : Machine) : Prop :=
  ∃ inner : List World, inner.length + 1 = m.frames.length ∧ m.ledger.saved = inner ++ w :: base

theorem guards_root (root : Frame) {l : Ledger} {w : World} {base : List World} (watch : Watch)
    (h : l.saved = w :: base) : Guards w base ⟨l, [root], watch⟩ :=
  ⟨[], rfl, h⟩

theorem Guards.unwind {w : World} {base : List World} (h : Guards w base m) :
    m.unwind.world = w ∧ m.unwind.saved = base := by
  obtain ⟨l, frames, watch⟩ := m
  obtain ⟨inner, count, saved⟩ := h
  simp only [Machine.unwind]
  dsimp only at count saved ⊢
  induction inner generalizing l frames with
  | nil =>
      obtain ⟨f, rfl⟩ := List.length_eq_one_iff.mp count.symm
      exact Journaled.discard_of_saved saved
  | cons v inner ih =>
      cases frames with
      | nil => simp at count
      | cons f below =>
          exact ih _ below (Nat.succ.inj count) (Journaled.discard_of_saved saved).2

theorem Step.guards {w : World} {base : List World} (step : Step host m m')
    (h : Guards w base m) : Guards w base m' := by
  obtain ⟨inner, count, saved⟩ := h
  cases step with
  | ran running stepped quiet =>
      exact ⟨inner, count, (Focus.Keeps.of_step_ok stepped).saved.trans saved⟩
  | answered running stepped asks set absorbed =>
      have kept := (Focus.Keeps.of_step_ok stepped).saved.trans saved
      have answers := (Focus.step_answered stepped asks set).saved
      exact ⟨inner, count, answers.trans ((Control.saved_opening ..).trans kept)⟩
  | entered running stepped asks set =>
      have kept := (Focus.Keeps.of_step_ok stepped).saved.trans saved
      have opened := (Focus.step_entered stepped asks set).saved
      rw [Control.saved_opening, kept] at opened
      exact ⟨_ :: inner, congrArg Nat.succ count, opened⟩
  | returned ended completed absorbed =>
      cases inner with
      | nil => cases count
      | cons v inner =>
          exact ⟨inner, Nat.succ.inj count, ((Frame.complete_ensures saved).ok completed).1⟩

/-- The outermost frame is finished with the checkpoints as they were before it, and a failure
leaves nothing behind. -/
theorem Guards.finished {w : World} {base : List World} {result : CallResult}
    (h : Guards w base m) (done : m.advance host = .finished result m') :
    m'.ledger.saved = base ∧ (result.success = false → m'.ledger.world = w) := by
  obtain ⟨f, l, watch, rfl, -, completed⟩ := last_of_finished done
  obtain ⟨inner, count, saved⟩ := h
  obtain rfl := List.length_eq_zero_iff.mp (Nat.succ.inj count)
  obtain ⟨closed, failure, -⟩ := (Frame.complete_ensures saved).ok completed
  exact ⟨closed, failure⟩

/-- A failure leaves a checkpoint for each frame that it leaves open, and unwinding leads back. -/
theorem Guards.failed {w : World} {base : List World} {e : EngineError}
    (h : Guards w base m) (done : m.advance host = .failed e m') :
    m'.unwind.world = w ∧ m'.unwind.saved = base := by
  obtain ⟨inner, count, saved⟩ := h
  cases failure_of_failed done with
  | noFrame => cases count
  | stopped running stepped =>
      refine Guards.unwind ⟨inner, count, ?_⟩
      exact (Focus.Keeps.of_step_error stepped).saved.trans saved
  | refused running stepped asks failed =>
      have kept := (Focus.Keeps.of_step_ok stepped).saved.trans saved
      have same := ((Focus.step_prepares stepped asks).error failed).1
      exact Guards.unwind ⟨inner, count, same.trans kept⟩
  | answered running stepped asks set refused =>
      have kept := (Focus.Keeps.of_step_ok stepped).saved.trans saved
      have answers := (Focus.step_answered stepped asks set).saved
      exact Guards.unwind ⟨inner, count, answers.trans ((Control.saved_opening ..).trans kept)⟩
  | unfinished failed =>
      cases inner with
      | nil =>
          obtain rfl := List.length_eq_zero_iff.mp (Nat.succ.inj count.symm)
          exact ((Frame.complete_ensures saved).error failed).1
      | cons v inner =>
          obtain ⟨⟨-, rest⟩, -⟩ := (Frame.complete_ensures saved).error failed
          exact Guards.unwind ⟨inner, Nat.succ.inj count, rest⟩
  | returned completed refused =>
      cases inner with
      | nil => cases count
      | cons v inner =>
          exact Guards.unwind ⟨inner, Nat.succ.inj count, ((Frame.complete_ensures saved).ok completed).1⟩

/-- Wherever a run is stopped, its outcome has the checkpoints below those of its frames, and the
world is back unless the run ended in success. -/
theorem Guards.outcome {w : World} {base : List World} (h : Guards w base m) (n : Nat) :
    (iterate host n m).outcome.ledger.saved = base ∧
      ((iterate host n m).outcome.result.toOption.all (!·.success) = true →
        (iterate host n m).outcome.ledger.world = w) := by
  obtain ⟨more, finished, failed⟩ := iterate_keeps (fun _ _ step => step.guards) n h
  cases ended : iterate host n m with
  | more last =>
      obtain ⟨world, saved⟩ := (more last ended).unwind
      exact ⟨saved, fun _ => world⟩
  | finished result last =>
      obtain ⟨before, guards, done⟩ := finished result last ended
      obtain ⟨saved, world⟩ := guards.finished done
      refine ⟨saved, fun unsuccessful => world ?_⟩
      simpa only [Progress.outcome, Except.toOption, Option.all_some, Bool.not_eq_true'] using
        unsuccessful
  | failed e last =>
      obtain ⟨before, guards, done⟩ := failed e last ended
      obtain ⟨world, saved⟩ := guards.failed done
      exact ⟨saved, fun _ => world⟩

/-- However a run ends, the checkpoints are as they were before its outermost frame, and a run that
does not end in success leaves the world as it was when that frame was entered. -/
theorem run_restores (host : Host) (root : Frame) (watch : Watch) {l : Ledger} {w : World}
    {base : List World} (h : l.saved = w :: base) :
    (run host root l watch).ledger.saved = base ∧
      ((run host root l watch).result.toOption.all (!·.success) = true →
        (run host root l watch).ledger.world = w) :=
  (guards_root root watch h).outcome (iterationBound root.gas)

end Machine
end EvmEngine
