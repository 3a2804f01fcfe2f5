import EvmEngine.Proofs.Calls.Code
import EvmEngine.Proofs.Machine.Checkpoints

/-!
Code through a run. A frame that is to put code into an account was entered when that account was not
taken, and all worlds that the run can still go back to have the code that was there at the start. So
the account it puts code into had none then, and no code of the start is ever lost.
-/

namespace EvmEngine

open Effects World

namespace Control

theorem code_opening (control : Control) (rules : Rules) (env : Environment) (l : Ledger)
    (a : Address) : (control.opening rules env l).world.code a = l.world.code a := by
  cases control with
  | create r =>
      simp only [opening, CreateRequest.opening]
      split
      · rfl
      · exact l.code_bumpNonce _ a
  | call | next | jumped | halted => rfl

/-- What is asked for spares every account that is taken when its checkpoint is opened, and a frame
that is entered for it puts code only into an account that is not. -/
theorem Asks.spares {control : Control} {host : Host} {env : Environment} {gas : UInt64}
    {action : Journaled (Prepared × ReturnTarget)} {l : Ledger}
    (asks : control.Asks host env gas action) :
    Ensures action l
      (fun answer l' =>
        (∀ a, (control.opening host.rules env l).world.Taken a →
          Spared a (control.opening host.rules env l).world l'.world) ∧
        ∀ child a, answer.1 = .enter child → child.target = .account a →
          ¬ (control.opening host.rules env l).world.Taken a)
      (fun _ _ => True) := by
  cases asks with
  | call r =>
      refine (CallRequest.prepare_spares (r := r)).bind fun prepared l' ⟨spared, entered⟩ =>
        .of_ok rfl ⟨fun a _ => spared a, fun child a same target => ?_⟩
      exact absurd target (entered child a same)
  | create r =>
      refine (CreateRequest.prepare_spares.mono (fun _ _ spares => spares) fun _ _ _ => trivial).bind
        fun (prepared, created) l' ⟨spared, entered⟩ =>
          .of_ok rfl ⟨spared, fun child a same target => ?_⟩
      obtain ⟨b, into, free⟩ := entered child same
      cases into.symm.trans target
      exact free

end Control

namespace Focus

theorem Change.code {op : Opcode} {s s' : Focus} (h : Change op s s') (a : Address) :
    s'.ledger.world.code a = s.ledger.world.code a := by
  cases h with
  | work | refund | log | destroy => rfl
  | store key value => exact Ledger.code_store _ _ _ _ a
  | debit _ _ paid => exact (Ledger.spared_debit paid a).code
  | credit _ _ paid => exact (Ledger.spared_credit paid a).code

theorem Moves.code {op : Opcode} {s s' : Focus} (h : Moves op s s') (a : Address) :
    s'.ledger.world.code a = s.ledger.world.code a := by
  induction h with
  | refl => rfl
  | tail _ change ih => exact (change.code a).trans ih

/-- No instruction changes code. -/
theorem code_of_step {s s' : Focus} {host : Host} {fetched : Fetched} {control : Control}
    (h : s.step host fetched = .ok control s') (a : Address) :
    s'.ledger.world.code a = s.ledger.world.code a := by
  obtain ⟨op, moves⟩ := s.step_moves host fetched
  simp only [endState, h] at moves
  exact moves.code a

end Focus

namespace Machine

variable {host : Host} {m m' : Machine} {start : World}

/-- The present world and those that the checkpoints go back to have the code that was there at the
start, and a frame puts code only into an account that was not taken when it was entered. -/
def Protects (start : World) : List Frame → World → List World → Prop
  | [], now, _ => start.KeepsCode now
  | f :: below, now, w :: saved =>
      start.KeepsCode now ∧ (∀ a, f.target = .account a → ¬ w.Taken a) ∧
        Protects start below w saved
  | _ :: _, _, [] => False

namespace Protects

variable {f f' : Frame} {below frames : List Frame} {now now' w : World} {saved : List World}

theorem keepsCode (h : Protects start frames now saved) : start.KeepsCode now := by
  cases frames with
  | nil => exact h
  | cons f below =>
      cases saved with
      | nil => exact h.elim
      | cons w saved => exact h.1

theorem write (h : Protects start (f :: below) now saved) (kept : start.KeepsCode now')
    (same : f'.target = f.target) : Protects start (f' :: below) now' saved := by
  cases saved with
  | nil => exact h
  | cons w saved => exact ⟨kept, fun a target => h.2.1 a (same ▸ target), h.2.2⟩

/-- An open frame has a checkpoint. -/
theorem saved_eq (h : Protects start (f :: below) now saved) : ∃ w rest, saved = w :: rest := by
  cases saved with
  | nil => exact h.elim
  | cons w rest => exact ⟨w, rest, rfl⟩

/-- A frame that is finished loses no code of the start, as the account it puts code into had none
when it was entered, and so none at the start. -/
theorem finish {result : CallResult} {l l' : Ledger}
    (h : Protects start (f :: below) l.world (w :: saved)) (inside : l.saved = w :: saved)
    (completed : f.complete host l = .ok result l') : start.KeepsCode l'.world := by
  obtain ⟨kept, free, before⟩ := h
  have left := (Frame.complete_spares inside).ok completed
  split at left
  · intro a has
    have spared : Spared a l.world l'.world := left a fun target => by
      refine free a target (.inr ?_)
      rw [before.keepsCode a has]
      exact has
    exact spared.code.trans (kept a has)
  · exact left ▸ before.keepsCode

end Protects

theorem protects_root {root : Frame} {l : Ledger} {w : World} {base : List World}
    (saved : l.saved = w :: base) (kept : start.KeepsCode l.world) (before : start.KeepsCode w)
    (free : ∀ a, root.target = .account a → ¬ w.Taken a) :
    Protects start [root] l.world l.saved := by
  rw [saved]
  exact ⟨kept, free, before⟩

theorem Step.protects (step : Step host m m')
    (h : Protects start m.frames m.ledger.world m.ledger.saved) :
    Protects start m'.frames m'.ledger.world m'.ledger.saved := by
  cases step with
  | ran running stepped quiet =>
      have kept := Focus.Keeps.of_step_ok stepped
      have code := h.keepsCode.trans (.of_same (Focus.code_of_step stepped))
      exact kept.saved ▸ h.write code kept.target
  | @answered f f₁ f' below l l₁ l' _ _ control _ _ result _ running stepped asks set absorbed =>
      have kept := Focus.Keeps.of_step_ok stepped
      have opened := h.keepsCode.trans (.of_same fun a =>
        (control.code_opening host.rules f₁.env l₁ a).trans (Focus.code_of_step stepped a))
      have code := opened.trans (.of_spared (asks.spares.ok set).1)
      have saved : l'.saved = l.saved :=
        (Focus.step_answered stepped asks set).saved.trans
          ((Control.saved_opening ..).trans kept.saved)
      exact saved ▸ h.write code ((Frame.absorb_ok absorbed).target.trans kept.target)
  | @entered f f₁ child below l l₁ l' _ _ control _ _ _ running stepped asks set =>
      have kept := Focus.Keeps.of_step_ok stepped
      have opened := h.keepsCode.trans (.of_same fun a =>
        (control.code_opening host.rules f₁.env l₁ a).trans (Focus.code_of_step stepped a))
      obtain ⟨spared, free⟩ := asks.spares.ok set
      have saved : l'.saved = (control.opening host.rules f₁.env l₁).world :: l.saved := by
        rw [(Focus.step_entered stepped asks set).saved, Control.saved_opening, kept.saved]
      rw [saved]
      exact ⟨opened.trans (.of_spared spared), fun a target => free child a rfl target,
        h.write opened kept.target⟩
  | @returned f parent parent' below l l' _ result ended completed absorbed =>
      obtain ⟨w, rest, saved⟩ := h.saved_eq
      rw [saved] at h
      have code := h.finish saved completed
      rw [((Frame.complete_ensures saved).ok completed).1]
      exact h.2.2.write code (Frame.absorb_ok absorbed).target

theorem protects_of_iterate {n : Nat}
    (before : Protects start m.frames m.ledger.world m.ledger.saved)
    (reached : iterate host n m = .more m') :
    Protects start m'.frames m'.ledger.world m'.ledger.saved :=
  (iterate_keeps (P := fun m => Protects start m.frames m.ledger.world m.ledger.saved)
    (fun _ _ step before => step.protects before) n before).1 m' reached

/-- A run that gives a result loses no code of the start. -/
theorem run_keepsCode {root : Frame} {l : Ledger} {watch : Watch} {result : CallResult}
    (before : Protects start [root] l.world l.saved)
    (h : (run host root l watch).result = .ok result) :
    start.KeepsCode (run host root l watch).ledger.world := by
  simp only [run] at h ⊢
  generalize iterationBound root.gas = n at h ⊢
  obtain ⟨last, m', protects, done, ledger⟩ := outcome_ok (m := ⟨l, [root], watch⟩)
    (P := fun m => Protects start m.frames m.ledger.world m.ledger.saved)
    (fun _ _ step before => step.protects before) before h
  rw [ledger]
  obtain ⟨f, l, watch, rfl, -, completed⟩ := last_of_finished done
  obtain ⟨w, rest, saved⟩ := protects.saved_eq
  rw [saved] at protects
  exact protects.finish saved completed

end Machine
end EvmEngine
