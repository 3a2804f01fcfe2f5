import EvmEngine.Exec
import EvmEngine.Proofs.Effects
import EvmEngine.Proofs.Frame.Works
import EvmEngine.Proofs.Ledger.Bisimulation

/-!
Actions of instructions run from two states that differ only in their ledgers. What an action reads
of a ledger is the same in related ones, and it changes both in the same way, so that the two runs
fail together or give the same answer, in states that again differ only in their ledgers.
-/

namespace EvmEngine

open Effects

/-- The same frame, which runs in the block given, over related ledgers. -/
structure Focus.Twins (block : Block) (R : Ledger → Ledger → Prop) (s t : Focus) : Prop where
  frame : t.frame = s.frame
  block : s.frame.env.block = block
  ledger : R s.ledger t.ledger

namespace Exec

/-- Actions that do the same in the two of any twin states. -/
def Lockstep {α : Type} (block : Block) (R : Ledger → Ledger → Prop) (x y : Exec α) : Prop :=
  ∀ s t, Focus.Twins block R s t → Same (Focus.Twins block R) (x s) (y t)

section
variable {α β : Type} {block : Block} {R : Ledger → Ledger → Prop}

theorem lockstep_bind {x y : Exec α} {f g : α → Exec β} (first : Lockstep block R x y)
    (next : ∀ a, Lockstep block R (f a) (g a)) : Lockstep block R (x >>= f) (y >>= g) :=
  fun s t twins => (first s t twins).bind fun a s t twins => next a s t twins

theorem lockstep_when {c : Prop} [Decidable c] {x y : Exec α} {rest rest' : Exec β}
    (sometimes : Lockstep block R x y) (always : Lockstep block R rest rest') :
    Lockstep block R (if c then x >>= fun _ => rest else rest)
      (if c then y >>= fun _ => rest' else rest') := by
  split
  · exact lockstep_bind sometimes fun _ => always
  · exact always

theorem lockstep_pure (a : α) : Lockstep block R (pure a) (pure a) :=
  fun _ _ twins => .ok twins

theorem lockstep_fail (cause : Fault) : Lockstep block R (fail cause : Exec α) (fail cause) :=
  fun _ _ twins => .error twins

theorem lockstep_frame {f g : Frame → Exec β}
    (next : ∀ h : Frame, h.env.block = block → Lockstep block R (f h) (g h)) :
    Lockstep block R (frame >>= f) (frame >>= g) := by
  intro s t twins
  show Same _ (f s.frame s) (g t.frame t)
  rw [twins.frame]
  exact next s.frame twins.block s t twins

theorem lockstep_ledger {f g : Ledger → Exec β}
    (next : ∀ l l', R l l' → Lockstep block R (f l) (g l')) :
    Lockstep block R (ledger >>= f) (ledger >>= g) :=
  fun s t twins => next s.ledger t.ledger twins.ledger s t twins

theorem lockstep_ofFrame {f : Frame → Except Fault (α × Frame)}
    (env : ∀ g a g', f g = .ok (a, g') → g'.env = g.env) :
    Lockstep block R (ofFrame f) (ofFrame f) := by
  intro s t twins
  simp only [ofFrame, twins.frame]
  cases ran : f s.frame with
  | ok r => exact .ok ⟨rfl, (congrArg _ (env _ _ _ ran)).trans twins.block, twins.ledger⟩
  | error cause => exact .error twins

theorem lockstep_onFrame {f : Frame → Except Fault Frame}
    (env : ∀ g g', f g = .ok g' → g'.env = g.env) :
    Lockstep block R (onFrame f) (onFrame f) := by
  intro s t twins
  simp only [onFrame, twins.frame]
  cases ran : f s.frame with
  | ok g => exact .ok ⟨rfl, (congrArg _ (env _ _ ran)).trans twins.block, twins.ledger⟩
  | error cause => exact .error twins

theorem lockstep_ofStack (f : Stack → Except Fault (α × Stack)) :
    Lockstep block R (ofStack f) (ofStack f) := by
  intro s t twins
  simp only [ofStack, twins.frame]
  cases f s.frame.stack with
  | ok r => exact .ok ⟨rfl, twins.block, twins.ledger⟩
  | error cause => exact .error twins

theorem lockstep_onStack (f : Stack → Except Fault Stack) :
    Lockstep block R (onStack f) (onStack f) := by
  intro s t twins
  simp only [onStack, twins.frame]
  cases f s.frame.stack with
  | ok stack => exact .ok ⟨rfl, twins.block, twins.ledger⟩
  | error cause => exact .error twins

theorem lockstep_modifyFrame {f : Frame → Frame} (env : ∀ g, (f g).env = g.env) :
    Lockstep block R (modifyFrame f) (modifyFrame f) := by
  intro s t twins
  refine .ok ⟨congrArg f twins.frame, ?_, twins.ledger⟩
  exact (congrArg _ (env s.frame)).trans twins.block

theorem lockstep_modifyLedger {f g : Ledger → Ledger} (same : ∀ l l', R l l' → R (f l) (g l')) :
    Lockstep block R (modifyLedger f) (modifyLedger g) :=
  fun _ _ twins => .ok ⟨twins.frame, twins.block, same _ _ twins.ledger⟩

theorem lockstep_onLedger {f g : Ledger → Except StateError Ledger}
    (same : ∀ l l', R l l' → Ledger.Twice R (f l) (g l')) :
    Lockstep block R (onLedger f) (onLedger g) := by
  intro s t twins
  have both := same _ _ twins.ledger
  simp only [onLedger]
  generalize f s.ledger = r, g t.ledger = r' at both
  cases both with
  | ok related => exact .ok ⟨twins.frame, twins.block, related⟩
  | error => exact .error twins

theorem lockstep_requireMutable : Lockstep block R requireMutable requireMutable := by
  intro s t twins
  simp only [requireMutable, twins.frame]
  cases s.frame.requireMutable with
  | ok => exact .ok twins
  | error cause => exact .error twins

theorem lockstep_pushWord (w : Word) : Lockstep block R (pushWord w) (pushWord w) :=
  lockstep_onStack _

theorem lockstep_spend (amount : UInt64) : Lockstep block R (spend amount) (spend amount) :=
  lockstep_onFrame fun _ _ spent => (Frame.works_spend spent).env

theorem lockstep_chargeMemory (gas : GasSchedule) (offset length : Word) :
    Lockstep block R (chargeMemory gas offset length) (chargeMemory gas offset length) :=
  lockstep_ofFrame fun _ _ _ charged => (Frame.works_chargeMemory charged).env

end

section
variable {block : Block} {rules : Rules} {R : Nat → Ledger → Ledger → Prop} {n : Nat}

theorem lockstep_load (bisim : Ledger.Bisimulation rules R) (key : Word) :
    Lockstep block (R n) (load key) (load key) := by
  intro s t twins
  simp only [load, twins.frame, bisim.load twins.ledger]
  exact .ok twins

theorem lockstep_store (bisim : Ledger.Bisimulation rules R) (key value : Word) :
    Lockstep block (R n) (store key value) (store key value) := by
  refine lockstep_bind lockstep_requireMutable fun _ => ?_
  refine lockstep_frame fun f _ => ?_
  exact lockstep_modifyLedger fun l l' related => bisim.putSlot related _ value

end
end Exec
end EvmEngine
