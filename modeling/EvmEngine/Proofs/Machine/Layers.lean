import EvmEngine.Proofs.Calls.Slots
import EvmEngine.Proofs.Machine.Checkpoints

/-!
Invariants of the open frames together with the world they act on. Such an invariant is kept for the
frames that are open and the present world, and at once for the frames below each one and the world
that its checkpoint goes back to: so it holds again after a rollback.
-/

namespace EvmEngine

open Effects

namespace Control

theorem renews_opening (control : Control) (rules : Rules) (env : Environment) (l : Ledger) :
    l.world.Renews (control.opening rules env l).world := by
  cases control with
  | create r =>
      simp only [opening, CreateRequest.opening]
      split
      · exact .refl _
      · exact (World.Renews.refl _).after fun place => by simp [Ledger.bumpNonce, Ledger.modifyAccount]
  | call | next | jumped | halted => exact .refl _

/-- What is asked for clears slots at most, and only of an account without code. -/
theorem Asks.renews {control : Control} {host : Host} {env : Environment} {gas : UInt64}
    {action : Journaled (Prepared × ReturnTarget)} {l : Ledger}
    (asks : control.Asks host env gas action) :
    Ensures action l (fun _ l' => l.world.Renews l'.world) (fun _ _ => True) := by
  cases asks with
  | call r =>
      exact CallRequest.prepare_spares.bind fun prepared l' ⟨spared, _⟩ =>
        .of_ok rfl (.of_spared spared)
  | create r => exact CreateRequest.prepare_renews.bind fun _ l' renews => .of_ok rfl renews

end Control

namespace Focus

theorem Change.slots {op : Opcode} {s s' : Focus} (h : Change op s s') (a : Address) (key : Word) :
    s'.ledger.world.slot? (a, key) = s.ledger.world.slot? (a, key) ∨ a = s.frame.env.address := by
  cases h with
  | work | refund | log | destroy => exact .inl rfl
  | store other value =>
      rw [Ledger.store, Ledger.world_putSlot, World.slot?_setSlot]
      split
      · next same => exact .inr (congrArg Prod.fst same).symm
      · exact .inl rfl
  | debit _ _ paid => exact .inl ((Ledger.spared_debit paid a).slots key)
  | credit _ _ paid => exact .inl ((Ledger.spared_credit paid a).slots key)

theorem Moves.slots {op : Opcode} {s s' : Focus} (h : Moves op s s') (a : Address) (key : Word) :
    s'.ledger.world.slot? (a, key) = s.ledger.world.slot? (a, key) ∨ a = s.frame.env.address := by
  induction h with
  | refl => exact .inl rfl
  | tail moves change ih =>
      obtain same | own := change.slots a key
      · exact same ▸ ih
      · exact .inr (own.trans (congrArg Environment.address (Moves.env moves)))

/-- A frame writes to no slots but those of the account it acts on. -/
theorem slots_of_step {s s' : Focus} {host : Host} {fetched : Fetched} {control : Control}
    (h : s.step host fetched = .ok control s') (a : Address) (key : Word) :
    s'.ledger.world.slot? (a, key) = s.ledger.world.slot? (a, key) ∨ a = s.frame.env.address := by
  obtain ⟨op, moves⟩ := s.step_moves host fetched
  simp only [endState, h] at moves
  exact moves.slots a key

end Focus

namespace Machine

/-- Something holds of the open frames and the present world, and of those below each frame and the
world that its checkpoint goes back to. -/
def Layered (P : List Frame → World → Prop) : List Frame → World → List World → Prop
  | [], now, _ => P [] now
  | f :: below, now, w :: saved => P (f :: below) now ∧ Layered P below w saved
  | _ :: _, _, [] => False

namespace Layered

variable {P Q : List Frame → World → Prop} {f f' child : Frame} {frames below : List Frame}
  {now now' w : World} {saved : List World}

theorem top (h : Layered P frames now saved) : P frames now := by
  cases frames with
  | nil => exact h
  | cons f below =>
      cases saved with
      | nil => exact h.elim
      | cons w saved => exact h.1

theorem replace (h : Layered P (f :: below) now saved) (top : P (f' :: below) now') :
    Layered P (f' :: below) now' saved := by
  cases saved with
  | nil => exact h
  | cons w saved => exact ⟨top, h.2⟩

theorem enter (h : Layered P (f :: below) now saved) (top : P (child :: f :: below) now') :
    Layered P (child :: f :: below) now' (now :: saved) :=
  ⟨top, h⟩

theorem leave (h : Layered P (f :: below) now (w :: saved)) : Layered P below w saved :=
  h.2

/-- An open frame has a checkpoint. -/
theorem saved_eq (h : Layered P (f :: below) now saved) : ∃ w rest, saved = w :: rest := by
  cases saved with
  | nil => exact h.elim
  | cons w rest => exact ⟨w, rest, rfl⟩

theorem mono (h : Layered P frames now saved) (weaker : ∀ frames w, P frames w → Q frames w) :
    Layered Q frames now saved := by
  induction frames generalizing now saved with
  | nil => exact weaker [] now h
  | cons f below ih =>
      cases saved with
      | nil => exact h.elim
      | cons w saved => exact ⟨weaker _ _ h.1, ih h.2⟩

end Layered
end Machine
end EvmEngine
