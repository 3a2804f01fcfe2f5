import EvmEngine.Proofs.Machine.Nesting
import EvmEngine.Proofs.Machine.Room
import EvmEngine.Proofs.Machine.Termination

/-!
What becomes of a run once its flag is set. The innermost frame may have ended before and be finished
all the same, with its effects kept; every other frame still runs, so that it sees the flag as soon as
it is the innermost one, and fails. The outermost frame is one of these, and its checkpoint takes back
whatever was kept.
-/

namespace EvmEngine

open Effects

/-- A frame that has not ended in success closes its checkpoint with its own result. -/
theorem Frame.complete_of_failure {f : Frame} {host : Host} {l : Ledger} {w : World}
    {rest : List World} (inside : l.saved = w :: rest) (failed : f.result.success = false) :
    ∃ l', f.complete host l = .ok f.result l' ∧ l'.world = w ∧ l'.saved = rest := by
  have settles : f.settled host.rules l = .ok f.result l := by
    simp only [settled, failed]
    cases f.target <;> rfl
  obtain ⟨l', closed, saved, world⟩ := close_ok f.result inside
  rw [failed] at world
  refine ⟨l', ?_, world, saved⟩
  rw [complete_eq, bind_of_ok settles, bind_of_ok closed]
  rfl

namespace Machine

variable {host : Host} {start : World} {base : List World} {f parent : Frame}
  {below : List Frame} {l : Ledger} {watch : Watch}

/-- Where the flag is set nothing is dispatched, and the innermost frame fails. -/
theorem advance_interrupted (flag : watch.interrupted = true) (running : f.isRunning = true) :
    advance ⟨l, f :: below, watch⟩ host =
      .more ⟨l, f.halted (.faulted .outOfGas) :: below, watch⟩ := by
  have fetched : f.fetch host watch.interrupted = .interrupted := by rw [flag]; rfl
  simp only [advance, running, if_true, fetched]
  rfl

/-- A frame that has ended is finished, and the one below it goes on. -/
theorem advance_ended (sound : Sound start base ⟨l, f :: parent :: below, watch⟩)
    (ended : f.isRunning = false) (waits : parent.isRunning = true) :
    ∃ l' parent', advance ⟨l, f :: parent :: below, watch⟩ host =
        .more ⟨l', parent' :: below, watch⟩ ∧
      parent'.isRunning = true ∧ Sound start base ⟨l', parent' :: below, watch⟩ := by
  obtain ⟨result, l', completed⟩ := sound.completes host
  obtain ⟨parent', absorbed⟩ := sound.absorbs result f.target
  have advanced : advance ⟨l, f :: parent :: below, watch⟩ host =
      .more ⟨l', parent' :: below, watch⟩ := by
    simp only [advance, ended, Bool.false_eq_true, if_false, completed, deliver, absorbed]
  refine ⟨l', parent', advanced, ?_, (step_of_more advanced).sound sound⟩
  rw [(Frame.absorb_ok absorbed).isRunning, waits]

/-- What an interrupted run comes to: a failure of its outermost frame, and the world and the
checkpoints from before that was entered. -/
def Undone (start : World) (base : List World) (progress : Progress) : Prop :=
  ∃ gasLimit m, progress = .finished (.ofFault gasLimit .outOfGas) m ∧
    m.ledger.world = start ∧ m.ledger.saved = base

theorem Undone.over {progress : Progress} (h : Undone start base progress) (m : Machine) :
    progress ≠ .more m := by
  obtain ⟨gasLimit, m', rfl, -⟩ := h
  simp

theorem undone_outermost (sound : Sound start base ⟨l, [f], watch⟩)
    (flag : watch.interrupted = true) (running : f.isRunning = true) :
    Undone start base (iterate host 2 ⟨l, [f], watch⟩) := by
  let g := f.halted (.faulted .outOfGas)
  have ended : g.isRunning = false := f.isRunning_halted (by simp)
  have failed : g.result = .ofFault g.gasLimit .outOfGas := by
    have halt : g.halt = .faulted .outOfGas := by simp only [g, Frame.halted, running, if_true]
    simp only [Frame.result, halt]
  obtain ⟨w, rest, saved⟩ := sound.traced.saved_eq
  have traced := sound.traced
  rw [saved] at traced
  obtain ⟨rfl, rfl⟩ := traced.leave
  obtain ⟨l', completed, world, closed⟩ : ∃ l', g.complete host l = .ok g.result l' ∧ _ :=
    Frame.complete_of_failure saved (by rw [failed]; rfl)
  have last : advance ⟨l, [g], watch⟩ host = .finished g.result ⟨l', [], watch⟩ := by
    simp only [advance, ended, Bool.false_eq_true, if_false, completed]
  refine ⟨g.gasLimit, ⟨l', [], watch⟩, ?_, world, closed⟩
  rw [iterate, advance_interrupted flag running]
  show iterate host 1 ⟨l, [g], watch⟩ = _
  rw [iterate, last, failed]

/-- Two iterations for each open frame are enough, whether or not the innermost one has ended. -/
theorem undone_of_interrupted (below : List Frame) {f : Frame} {l : Ledger}
    (sound : Sound start base ⟨l, f :: below, watch⟩) (flag : watch.interrupted = true)
    (waiting : ∀ g ∈ below, g.isRunning = true)
    (outermost : below = [] → f.isRunning = true) :
    Undone start base (iterate host (2 * (below.length + 1)) ⟨l, f :: below, watch⟩) := by
  induction below generalizing f l with
  | nil => exact undone_outermost sound flag (outermost rfl)
  | cons parent rest ih =>
      rw [List.forall_mem_cons] at waiting
      -- Once the innermost frame has ended, one iteration leads to the frame below it.
      have after {f : Frame} (ended : f.isRunning = false)
          (sound : Sound start base ⟨l, f :: parent :: rest, watch⟩) : Undone start base
            (iterate host (2 * (rest.length + 1) + 1) ⟨l, f :: parent :: rest, watch⟩) := by
        obtain ⟨l', parent', advanced, running, sound'⟩ := advance_ended sound ended waiting.1
        rw [iterate, advanced]
        exact ih sound' waiting.2 fun _ => running
      rw [List.length_cons, Nat.mul_add_one 2 (rest.length + 1)]
      cases running : f.isRunning with
      | true =>
          have advanced : advance ⟨l, f :: parent :: rest, watch⟩ host = .more _ :=
            advance_interrupted flag running
          rw [iterate, advanced]
          exact after (f.isRunning_halted (by simp)) ((step_of_more advanced).sound sound)
      | false =>
          have undone := after running sound
          rwa [← Nat.add_assoc _ 1 1, iterate_of_over undone.over]

end Machine
end EvmEngine
