import EvmEngine.Proofs.Instruction.Ledger
import EvmEngine.Proofs.Machine.Checkpoints

/-!
The worlds of a run. From the world in which the outermost frame was entered, writes lead to the one
that the next checkpoint goes back to, and so on up to the present world; rolling back only goes back
along this line. So all that a run which ends in success does to the world is write to it, and an
account that a frame was entered to create is there until the frame is finished.
-/

namespace EvmEngine
namespace Machine

open Effects

variable {host : Host} {m m' : Machine} {start : World} {base : List World}

/-- The worlds that the checkpoints of the open frames go back to lie on one line of writes, from
the world at the start to the present one, above the worlds given. -/
def Traced (start : World) (base : List World) : List Frame → World → List World → Prop
  | [], now, saved => now = start ∧ saved = base
  | f :: below, now, w :: saved =>
      World.Writes w now ∧ f.Held now ∧ Traced start base below w saved
  | _ :: _, _, [] => False

namespace Traced

variable {f f' : Frame} {below : List Frame} {now now' w : World} {saved : List World}

theorem write (h : Traced start base (f :: below) now saved) (writes : World.Writes now now')
    (same : f'.target = f.target) : Traced start base (f' :: below) now' saved := by
  cases saved with
  | nil => exact h
  | cons w saved =>
      obtain ⟨before, held, rest⟩ := h
      exact ⟨before.trans writes, fun a target => writes.isSome (held a (same ▸ target)), rest⟩

theorem enter (h : Traced start base (f :: below) now saved) (writes : World.Writes now now')
    (held : f'.Held now') : Traced start base (f' :: f :: below) now' (now :: saved) :=
  ⟨writes, held, h⟩

/-- An open frame has a checkpoint. -/
theorem saved_eq (h : Traced start base (f :: below) now saved) :
    ∃ w rest, saved = w :: rest := by
  cases saved with
  | nil => exact h.elim
  | cons w rest => exact ⟨w, rest, rfl⟩

theorem leave (h : Traced start base (f :: below) now (w :: saved)) :
    Traced start base below w saved :=
  h.2.2

/-- What a frame that is finished has done stays done for the frames below it. -/
theorem keep (h : Traced start base (f :: f' :: below) now (w :: saved))
    (writes : World.Writes now now') : Traced start base (f' :: below) now' saved :=
  h.leave.write (h.1.trans writes) rfl

theorem writes {frames : List Frame} (h : Traced start base frames now saved) :
    World.Writes start now := by
  induction frames generalizing now saved with
  | nil => exact h.1 ▸ .refl
  | cons f below ih =>
      cases saved with
      | nil => exact h.elim
      | cons w saved => exact (ih h.leave).trans h.1

end Traced

theorem traced_root {root : Frame} {l : Ledger} (saved : l.saved = start :: base)
    (writes : World.Writes start l.world) (held : root.Held l.world) :
    Traced start base [root] l.world l.saved := by
  rw [saved]
  exact ⟨writes, held, rfl, rfl⟩

theorem Step.traced (step : Step host m m')
    (h : Traced start base m.frames m.ledger.world m.ledger.saved) :
    Traced start base m'.frames m'.ledger.world m'.ledger.saved := by
  cases step with
  | ran running stepped quiet =>
      have kept := Focus.Keeps.of_step_ok stepped
      have writes := (Focus.step_edits _ host _).ok stepped
      exact kept.saved ▸ h.write writes kept.target
  | @answered f f₁ f' below l l₁ l' _ _ control _ _ result _ running stepped asks set absorbed =>
      have kept := Focus.Keeps.of_step_ok stepped
      have writes := (Focus.step_edits _ host _).ok stepped
      have answers := Focus.step_answered stepped asks set
      have opened := control.writes_opening host.rules f₁.env l₁
      have saved : l'.saved = l.saved :=
        answers.saved.trans ((Control.saved_opening ..).trans kept.saved)
      have target := (Frame.absorb_ok absorbed).target.trans kept.target
      exact saved ▸ h.write ((writes.trans opened).trans answers.writes) target
  | @entered f f₁ child below l l₁ l' _ _ control _ _ _ running stepped asks set =>
      have kept := Focus.Keeps.of_step_ok stepped
      have writes := (Focus.step_edits _ host _).ok stepped
      have opens := Focus.step_entered stepped asks set
      have opened := control.writes_opening host.rules f₁.env l₁
      have saved : l'.saved = (control.opening host.rules f₁.env l₁).world :: l.saved := by
        rw [opens.saved, Control.saved_opening, kept.saved]
      rw [saved]
      exact (h.write (writes.trans opened) kept.target).enter opens.moved opens.enters.2.2
  | @returned f parent parent' below l l' _ result ended completed absorbed =>
      obtain ⟨w, rest, saved⟩ := h.saved_eq
      rw [saved] at h
      obtain ⟨closed, failed, succeeded⟩ := (Frame.complete_ensures saved).ok completed
      have target := (Frame.absorb_ok absorbed).target
      rw [closed]
      cases success : result.success with
      | true => exact (h.keep (succeeded success)).write .refl target
      | false => exact h.leave.write (failed success ▸ .refl) target

/-- A run that is finished with success has only written to the world. -/
theorem Traced.finished {result : CallResult}
    (h : Traced start base m.frames m.ledger.world m.ledger.saved)
    (done : m.advance host = .finished result m') (success : result.success = true) :
    World.Writes start m'.ledger.world := by
  obtain ⟨f, l, watch, rfl, -, completed⟩ := last_of_finished done
  obtain ⟨w, rest, saved⟩ := h.saved_eq
  exact h.writes.trans (((Frame.complete_ensures saved).ok completed).2.2 success)

theorem run_writes {root : Frame} {l : Ledger} {watch : Watch} {result : CallResult}
    (saved : l.saved = start :: base) (writes : World.Writes start l.world)
    (held : root.Held l.world) (h : (run host root l watch).result = .ok result)
    (success : result.success = true) :
    World.Writes start (run host root l watch).ledger.world := by
  simp only [run] at h ⊢
  generalize iterationBound root.gas = n at h ⊢
  obtain ⟨last, m', traced, done, ledger⟩ := outcome_ok (m := ⟨l, [root], watch⟩)
    (P := fun m => Traced start base m.frames m.ledger.world m.ledger.saved)
    (fun _ _ step before => step.traced before) (traced_root saved writes held) h
  rw [ledger]
  exact traced.finished done success

end Machine
end EvmEngine
