import EvmEngine.Exec
import EvmEngine.Proofs.Effects
import EvmEngine.Proofs.Frame.Works

/-!
Actions that leave the counter of the frame and the code it counts in alone, also where they fail.
All but those that are meant to move it do.
-/

namespace EvmEngine

open Effects Exec

namespace Frame

/-- The same code, and the counter at the same place in it. -/
structure Stays (f f' : Frame) : Prop where
  code : f'.code = f.code
  jumpDests : f'.jumpDests = f.jumpDests
  pc : f'.pc = f.pc

namespace Stays

theorem refl (f : Frame) : f.Stays f :=
  ⟨rfl, rfl, rfl⟩

theorem trans {f g h : Frame} (first : f.Stays g) (second : g.Stays h) : f.Stays h :=
  ⟨second.code.trans first.code, second.jumpDests.trans first.jumpDests,
    second.pc.trans first.pc⟩

end Stays

theorem stays_halted (f : Frame) (halt : Halt) : f.Stays (f.halted halt) := by
  simp only [halted]
  split <;> exact ⟨rfl, rfl, rfl⟩

theorem stays_recordDestroyed (f : Frame) (a : Address) : f.Stays (f.recordDestroyed a) := by
  simp only [recordDestroyed]
  split <;> exact ⟨rfl, rfl, rfl⟩

theorem stays_spend {f f' : Frame} {amount : UInt64} (h : f.spend amount = .ok f') :
    f.Stays f' := by
  obtain ⟨-, rfl⟩ := spend_eq_ok.mp h
  exact ⟨rfl, rfl, rfl⟩

theorem stays_chargeMemory {f f' : Frame} {offset length : Word} {gas : GasSchedule}
    {span : Nat × Nat} (h : f.chargeMemory offset length gas = .ok (span, f')) : f.Stays f' := by
  obtain ⟨-, -, rfl⟩ := chargeMemory_ok h
  exact ⟨rfl, rfl, rfl⟩

theorem jump_ok {f f' : Frame} {destination : Word} (h : f.jump destination = .ok f') :
    ∃ pc, f.jumpDests.contains pc = true ∧ f' = { f with pc } := by
  simp only [jump] at h
  split at h
  · next marked =>
      cases h
      exact ⟨_, marked, rfl⟩
  · cases h

end Frame

namespace Exec

/-- An action that leaves the counter alone, whether or not it fails. -/
def Steady {α : Type} (x : Exec α) : Prop :=
  ∀ s : Focus, s.frame.Stays (endState x s).frame

section
variable {α β : Type}

theorem steady_bind {x : Exec α} {f : α → Exec β} (first : Steady x)
    (next : ∀ a, Steady (f a)) : Steady (x >>= f) := by
  intro s
  have before := first s
  cases h : x s with
  | error e s' =>
      rw [endState_error h] at before
      rwa [endState_error (bind_of_error h)]
  | ok a s' =>
      rw [endState_ok h] at before
      have after := next a s'
      simp only [endState, bind_of_ok h] at after ⊢
      exact before.trans after

theorem steady_when {c : Prop} [Decidable c] {x : Exec α} {rest : Exec β}
    (sometimes : Steady x) (always : Steady rest) :
    Steady (if c then x >>= fun _ => rest else rest) := by
  split
  · exact steady_bind sometimes fun _ => always
  · exact always

theorem steady_pure (a : α) : Steady (pure a) :=
  fun s => .refl s.frame

theorem steady_fail (cause : Fault) : Steady (fail cause : Exec α) :=
  fun s => .refl s.frame

theorem steady_ledger : Steady ledger :=
  fun s => .refl s.frame

theorem steady_frame : Steady frame :=
  fun s => .refl s.frame

theorem steady_load (key : Word) : Steady (load key) :=
  fun s => .refl s.frame

theorem steady_modifyLedger (f : Ledger → Ledger) : Steady (modifyLedger f) :=
  fun s => .refl s.frame

theorem steady_onLedger (f : Ledger → Except StateError Ledger) : Steady (onLedger f) := by
  intro s
  cases h : f s.ledger <;> simp only [endState, onLedger, h] <;> exact .refl s.frame

theorem steady_requireMutable : Steady requireMutable := by
  intro s
  cases h : s.frame.requireMutable <;> simp only [endState, requireMutable, h] <;>
    exact .refl s.frame

theorem steady_store (key value : Word) : Steady (store key value) := by
  refine steady_bind steady_requireMutable fun _ => ?_
  exact steady_bind steady_frame fun f => steady_modifyLedger _

theorem steady_ofStack {f : Stack → Except Fault (α × Stack)} : Steady (ofStack f) := by
  intro s
  cases h : f s.frame.stack <;> simp only [endState, ofStack, h] <;> exact ⟨rfl, rfl, rfl⟩

theorem steady_onStack {f : Stack → Except Fault Stack} : Steady (onStack f) := by
  intro s
  cases h : f s.frame.stack <;> simp only [endState, onStack, h] <;> exact ⟨rfl, rfl, rfl⟩

theorem steady_pushWord (w : Word) : Steady (pushWord w) :=
  steady_onStack

theorem steady_ofFrame {f : Frame → Except Fault (α × Frame)}
    (stays : ∀ g a g', f g = .ok (a, g') → g.Stays g') : Steady (ofFrame f) := by
  intro s
  cases h : f s.frame with
  | ok r =>
      simp only [endState, ofFrame, h]
      exact stays _ _ _ h
  | error cause =>
      simp only [endState, ofFrame, h]
      exact .refl s.frame

theorem steady_onFrame {f : Frame → Except Fault Frame}
    (stays : ∀ g g', f g = .ok g' → g.Stays g') : Steady (onFrame f) := by
  intro s
  cases h : f s.frame with
  | ok g =>
      simp only [endState, onFrame, h]
      exact stays _ _ h
  | error cause =>
      simp only [endState, onFrame, h]
      exact .refl s.frame

theorem steady_modifyFrame {f : Frame → Frame} (stays : ∀ g : Frame, g.Stays (f g)) :
    Steady (modifyFrame f) :=
  fun s => stays s.frame

theorem steady_spend (amount : UInt64) : Steady (spend amount) :=
  steady_onFrame fun _ _ => Frame.stays_spend

theorem steady_chargeMemory (gas : GasSchedule) (offset length : Word) :
    Steady (chargeMemory gas offset length) :=
  steady_ofFrame fun _ _ _ => Frame.stays_chargeMemory

end
end Exec
end EvmEngine
