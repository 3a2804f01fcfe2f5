import EvmEngine.Exec
import EvmEngine.Proofs.Effects
import EvmEngine.Proofs.Frame.Works
import EvmEngine.Proofs.Ledger.Saved
import Mathlib.Logic.Relation

/-!
What an instruction can do to its frame and to the ledger, said once. Every instruction is a
sequence of a few kinds of change: work inside the frame, which never adds gas, and effects, each of
which belongs to certain instructions and to frames in which the state may change. What all these
changes keep is kept by every instruction, also by one that fails halfway. A failure is a fault of
the frame, unless a balance is given away.
-/

namespace EvmEngine

open Effects

namespace Focus

/-- One change made by an instruction. -/
inductive Change (op : Opcode) : Focus → Focus → Prop
  | work {s : Focus} {f : Frame} (works : s.frame.Works f) : Change op s { s with frame := f }
  | refund {s : Focus} (delta : Int64) (isStore : op = .sstore)
      (mutable : s.frame.env.isStatic = false) :
      Change op s { s with frame := s.frame.addRefund delta }
  | log {s : Focus} {topics : Fin 5} (entry : Log) (isLog : op = .log topics)
      (mutable : s.frame.env.isStatic = false) :
      Change op s { s with frame := s.frame.pushLog entry }
  | destroy {s : Focus} (isDestruct : op = .selfDestruct)
      (mutable : s.frame.env.isStatic = false) :
      Change op s { s with frame := s.frame.recordDestroyed s.frame.env.address }
  | store {s : Focus} (key value : Word) (isStore : op = .sstore)
      (mutable : s.frame.env.isStatic = false) :
      Change op s { s with ledger := s.ledger.store s.frame.env.address key value }
  | debit {s : Focus} {l : Ledger} {amount : Word} (isDestruct : op = .selfDestruct)
      (mutable : s.frame.env.isStatic = false)
      (paid : s.ledger.debit s.frame.env.address amount = .ok l) :
      Change op s { s with ledger := l }
  | credit {s : Focus} {l : Ledger} {a : Address} {amount : Word} (isDestruct : op = .selfDestruct)
      (mutable : s.frame.env.isStatic = false) (paid : s.ledger.credit a amount = .ok l) :
      Change op s { s with ledger := l }

/-- Any number of changes, one after the other. -/
abbrev Moves (op : Opcode) : Focus → Focus → Prop :=
  Relation.ReflTransGen (Change op)

theorem Change.env {op : Opcode} {s s' : Focus} (h : Change op s s') :
    s'.frame.env = s.frame.env := by
  cases h with
  | work works => exact works.env
  | destroy =>
      simp only [Frame.recordDestroyed]
      split <;> rfl
  | refund | log | store | debit | credit => rfl

theorem Moves.env {op : Opcode} {s s' : Focus} (h : Moves op s s') :
    s'.frame.env = s.frame.env := by
  induction h with
  | refl => rfl
  | tail _ change ih => exact change.env.trans ih

/-- What no instruction changes, and what it never adds to. -/
structure Keeps (s s' : Focus) : Prop where
  env : s'.frame.env = s.frame.env
  target : s'.frame.target = s.frame.target
  gasLimit : s'.frame.gasLimit = s.frame.gasLimit
  gas : s'.frame.gas ≤ s.frame.gas
  saved : s'.ledger.saved = s.ledger.saved
  paged : s.frame.memory.Paged → s'.frame.memory.Paged

namespace Keeps

theorem refl (s : Focus) : Keeps s s :=
  ⟨rfl, rfl, rfl, UInt64.le_refl _, rfl, id⟩

theorem trans {s t u : Focus} (first : Keeps s t) (second : Keeps t u) : Keeps s u :=
  ⟨second.env.trans first.env, second.target.trans first.target,
    second.gasLimit.trans first.gasLimit, UInt64.le_trans second.gas first.gas,
    second.saved.trans first.saved, second.paged ∘ first.paged⟩

end Keeps

end Focus

theorem Frame.Works.keeps {s : Focus} {f : Frame} (works : s.frame.Works f) :
    Focus.Keeps s { s with frame := f } :=
  ⟨works.env, works.target, works.gasLimit, works.gas, rfl, works.memory⟩

namespace Focus

theorem Change.keeps {op : Opcode} {s s' : Focus} (h : Change op s s') : Keeps s s' := by
  cases h with
  | work works => exact works.keeps
  | refund | log => exact ⟨rfl, rfl, rfl, UInt64.le_refl _, rfl, id⟩
  | destroy =>
      simp only [Frame.recordDestroyed]
      split <;> exact ⟨rfl, rfl, rfl, UInt64.le_refl _, rfl, id⟩
  | store key value => exact ⟨rfl, rfl, rfl, UInt64.le_refl _, Ledger.saved_store .., id⟩
  | debit _ _ paid => exact ⟨rfl, rfl, rfl, UInt64.le_refl _, Ledger.saved_debit paid, id⟩
  | credit _ _ paid => exact ⟨rfl, rfl, rfl, UInt64.le_refl _, Ledger.saved_credit paid, id⟩

theorem Moves.keeps {op : Opcode} {s s' : Focus} (h : Moves op s s') : Keeps s s' := by
  induction h with
  | refl => exact .refl s
  | tail _ change ih => exact ih.trans change.keeps

end Focus

namespace Exec

open Focus

/-- What an action of an instruction does from a state: changes that belong to the instruction, and
where it fails, a fault of the frame; only giving a balance away can fail otherwise. -/
structure Acts {α : Type} (op : Opcode) (x : Exec α) (s : Focus) : Prop where
  moves : Moves op s (endState x s)
  faults : op ≠ .selfDestruct → ∀ e s', x s = .error e s' → ∃ cause, e = .fault cause

namespace Acts

variable {α : Type} {op : Opcode} {x : Exec α} {s s' : Focus}

theorem of_ok {a : α} (run : x s = .ok a s') (moves : Moves op s s') : Acts op x s where
  moves := (endState_ok run).symm ▸ moves
  faults _ _ _ failed := by cases run.symm.trans failed

theorem of_fault {c : Fault} (run : x s = .error (.fault c) s') (moves : Moves op s s') :
    Acts op x s where
  moves := (endState_error run).symm ▸ moves
  faults _ _ _ failed := by
    cases run.symm.trans failed
    exact ⟨c, rfl⟩

theorem of_refusal {e : EngineError} (isDestruct : op = .selfDestruct) (run : x s = .error e s')
    (moves : Moves op s s') : Acts op x s where
  moves := (endState_error run).symm ▸ moves
  faults other := absurd isDestruct other

theorem of_change {a : α} (run : x s = .ok a s') (change : Change op s s') : Acts op x s :=
  .of_ok run (.single change)

end Acts

/-- An action that makes no changes but those an instruction may make, in a frame that was entered
with the environment given. -/
def Within {α : Type} (op : Opcode) (env : Environment) (x : Exec α) : Prop :=
  ∀ s : Focus, s.frame.env = env → Acts op x s

section
variable {α β : Type} {op : Opcode} {env : Environment}

theorem within_bind {x : Exec α} {f : α → Exec β} (first : Within op env x)
    (next : ∀ a, Within op env (f a)) : Within op env (x >>= f) := by
  intro s hs
  obtain ⟨moved, faults⟩ := first s hs
  cases h : x s with
  | error e s' =>
      rw [endState_error h] at moved
      refine ⟨(endState_error (bind_of_error h)).symm ▸ moved, fun other e' s₁ failed => ?_⟩
      cases (bind_of_error h).symm.trans failed
      exact faults other e s' h
  | ok a s' =>
      rw [endState_ok h] at moved
      obtain ⟨later, faults⟩ := next a s' (moved.env.trans hs)
      have same : (x >>= f) s = f a s' := bind_of_ok h
      refine ⟨?_, fun other e s₁ failed => faults other e s₁ (same.symm.trans failed)⟩
      simp only [endState, same] at later ⊢
      exact moved.trans later

theorem within_when {c : Prop} [Decidable c] {x : Exec α} {rest : Exec β}
    (sometimes : Within op env x) (always : Within op env rest) :
    Within op env (if c then x >>= fun _ => rest else rest) := by
  split
  · exact within_bind sometimes fun _ => always
  · exact always

theorem within_pure (a : α) : Within op env (pure a) :=
  fun _ _ => .of_ok rfl .refl

theorem within_fail (cause : Fault) : Within op env (fail cause : Exec α) :=
  fun _ _ => .of_fault rfl .refl

theorem within_ledger : Within op env ledger :=
  fun _ _ => .of_ok rfl .refl

theorem within_load (key : Word) : Within op env (load key) :=
  fun _ _ => .of_ok rfl .refl

theorem within_frame {f : Frame → Exec β}
    (next : ∀ g : Frame, g.env = env → Within op env (f g)) : Within op env (frame >>= f) := by
  intro s hs
  obtain ⟨moves, faults⟩ := next s.frame hs s hs
  exact ⟨moves, faults⟩

theorem within_mutable : Within op env requireMutable := by
  intro s _
  cases h : s.frame.requireMutable with
  | ok => exact .of_ok (a := ()) (by simp only [requireMutable, h]) .refl
  | error cause => exact .of_fault (c := cause) (by simp only [requireMutable, h]) .refl

/-- What follows the check is only reached where the state may change. -/
theorem within_requireMutable {f : Unit → Exec β}
    (next : env.isStatic = false → Within op env (f ())) :
    Within op env (requireMutable >>= f) := by
  cases frozen : env.isStatic with
  | false => exact within_bind within_mutable fun _ => next frozen
  | true =>
      intro s hs
      have refused : requireMutable s = .error (.fault .staticStateChange) s := by
        simp [requireMutable, Frame.requireMutable, hs, frozen]
      exact .of_fault (bind_of_error refused) .refl

theorem within_ofFrame {f : Frame → Except Fault (α × Frame)}
    (works : ∀ g a g', f g = .ok (a, g') → g.Works g') : Within op env (ofFrame f) := by
  intro s _
  cases h : f s.frame with
  | ok r => exact .of_change (a := r.1) (by simp only [ofFrame, h]) (.work (works _ _ _ h))
  | error cause => exact .of_fault (c := cause) (by simp only [ofFrame, h]) .refl

theorem within_onFrame {f : Frame → Except Fault Frame}
    (works : ∀ g g', f g = .ok g' → g.Works g') : Within op env (onFrame f) := by
  intro s _
  cases h : f s.frame with
  | ok g => exact .of_change (a := ()) (by simp only [onFrame, h]) (.work (works _ _ h))
  | error cause => exact .of_fault (c := cause) (by simp only [onFrame, h]) .refl

theorem within_ofStack {f : Stack → Except Fault (α × Stack)} :
    Within op env (ofStack f) := by
  intro s _
  cases h : f s.frame.stack with
  | ok r =>
      exact .of_change (a := r.1) (by simp only [ofStack, h]) (.work (Frame.works_stack _ r.2))
  | error cause => exact .of_fault (c := cause) (by simp only [ofStack, h]) .refl

theorem within_onStack {f : Stack → Except Fault Stack} : Within op env (onStack f) := by
  intro s _
  cases h : f s.frame.stack with
  | ok stack =>
      exact .of_change (a := ()) (by simp only [onStack, h]) (.work (Frame.works_stack _ stack))
  | error cause => exact .of_fault (c := cause) (by simp only [onStack, h]) .refl

theorem within_modifyFrame {f : Frame → Frame} (works : ∀ g : Frame, g.Works (f g)) :
    Within op env (modifyFrame f) :=
  fun s _ => .of_change rfl (.work (works s.frame))

theorem within_pushWord (w : Word) : Within op env (pushWord w) :=
  within_onStack

theorem within_spend (amount : UInt64) : Within op env (spend amount) :=
  within_onFrame fun _ _ => Frame.works_spend

theorem within_chargeMemory (gas : GasSchedule) (offset length : Word) :
    Within op env (chargeMemory gas offset length) :=
  within_ofFrame fun _ _ _ => Frame.works_chargeMemory

end
end Exec
end EvmEngine
