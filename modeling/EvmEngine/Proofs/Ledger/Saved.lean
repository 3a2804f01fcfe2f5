import EvmEngine.Ledger

/-!
What the notes of a ledger stand for. Each open checkpoint stands for a world, the one that rolling
back to it restores; `Ledger.saved` lists these worlds, the innermost checkpoint first. A change
leaves the list alone, whatever it writes; opening a checkpoint puts the present world in front, and
closing one takes the first world away. So nothing outside the ledger has to look at the notes.
-/

namespace EvmEngine

namespace World

theorem ext_lookup {v w : World} (accounts : ∀ a, v.account? a = w.account? a)
    (slots : ∀ place, v.slot? place = w.slot? place) : v = w := by
  cases v
  cases w
  congr
  · exact Std.ExtTreeMap.ext_getElem? accounts
  · exact Std.ExtTreeMap.ext_getElem? slots

@[simp] theorem account?_setAccount (w : World) (a b : Address) (account : Option Account) :
    (w.setAccount a account).account? b = if a = b then account else w.account? b := by
  cases account <;>
    simp [setAccount, account?, Std.ExtTreeMap.getElem?_insert, Std.ExtTreeMap.getElem?_erase]

@[simp] theorem slot?_setAccount (w : World) (a : Address) (account : Option Account)
    (place : Slot) : (w.setAccount a account).slot? place = w.slot? place := by
  cases account <;> rfl

@[simp] theorem account?_setSlot (w : World) (place : Slot) (value : Option Word) (a : Address) :
    (w.setSlot place value).account? a = w.account? a := by
  cases value <;> rfl

@[simp] theorem slot?_setSlot (w : World) (place other : Slot) (value : Option Word) :
    (w.setSlot place value).slot? other = if place = other then value else w.slot? other := by
  cases value <;>
    simp [setSlot, slot?, Std.ExtTreeMap.getElem?_insert, Std.ExtTreeMap.getElem?_erase]

theorem setAccount_restore (w : World) (a : Address) (account : Option Account) :
    (w.setAccount a account).setAccount a (w.account? a) = w := by
  apply ext_lookup
  · intro b
    by_cases h : a = b <;> simp [h]
  · simp

theorem setSlot_restore (w : World) (place : Slot) (value : Option Word) :
    (w.setSlot place value).setSlot place (w.slot? place) = w := by
  apply ext_lookup
  · simp
  · intro other
    by_cases h : place = other <;> simp [h]

end World

namespace Undo

@[simp] theorem apply_account (w : World) (a : Address) (previous : Option Account) :
    (account a previous).apply w = w.setAccount a previous := rfl

@[simp] theorem apply_slot (w : World) (place : Slot) (previous : Option Word) :
    (slot place previous).apply w = w.setSlot place previous := rfl

/-- The world before the changes that left these notes, the latest note first. -/
def applyAll (w : World) (notes : List Undo) : World :=
  notes.foldl apply w

@[simp] theorem applyAll_nil (w : World) : applyAll w [] = w := rfl

@[simp] theorem applyAll_cons (w : World) (u : Undo) (notes : List Undo) :
    applyAll w (u :: notes) = applyAll (u.apply w) notes := rfl

theorem applyAll_append (w : World) (notes older : List Undo) :
    applyAll w (notes ++ older) = applyAll (applyAll w notes) older :=
  List.foldl_append

/-- The world that each list of notes goes back to, where the first list starts at `w` and each
other one at the world before. -/
def worlds : World → List (List Undo) → List World
  | _, [] => []
  | w, notes :: rest => applyAll w notes :: worlds (applyAll w notes) rest

@[simp] theorem length_worlds (w : World) (checkpoints : List (List Undo)) :
    (worlds w checkpoints).length = checkpoints.length := by
  induction checkpoints generalizing w with
  | nil => rfl
  | cons notes rest ih => simp [worlds, ih]

end Undo

namespace Ledger

/-- The worlds that the open checkpoints go back to, the innermost first. -/
def saved (l : Ledger) : List World :=
  Undo.worlds l.world l.checkpoints

@[simp] theorem length_saved (l : Ledger) : l.saved.length = l.depth :=
  Undo.length_worlds l.world l.checkpoints

@[simp] theorem world_note (l : Ledger) (u : Undo) : (l.note u).world = l.world := by
  simp only [note]
  split <;> rfl

@[simp] theorem world_remember (l : Ledger) (place : Slot) :
    (l.remember place).world = l.world := by
  simp only [remember]
  split <;> rfl

@[simp] theorem checkpoints_remember (l : Ledger) (place : Slot) :
    (l.remember place).checkpoints = l.checkpoints := by
  simp only [remember]
  split <;> rfl

@[simp] theorem world_putAccount (l : Ledger) (a : Address) (account : Option Account) :
    (l.putAccount a account).world = l.world.setAccount a account := by
  simp [putAccount]

@[simp] theorem world_putSlot (l : Ledger) (place : Slot) (value : Word) :
    (l.putSlot place value).world = l.world.setSlot place (World.stored value) := by
  simp [putSlot]

/-- A note that takes a change back keeps what every checkpoint goes back to. -/
theorem worlds_note (l : Ledger) (u : Undo) (w : World) (h : u.apply w = l.world) :
    Undo.worlds w (l.note u).checkpoints = l.saved := by
  simp only [note, saved]
  split
  · next none => simp [none, Undo.worlds]
  · next top rest open_ => simp [open_, Undo.worlds, h]

@[simp] theorem saved_putAccount (l : Ledger) (a : Address) (account : Option Account) :
    (l.putAccount a account).saved = l.saved := by
  have restored : (Undo.account a (l.world.account? a)).apply (l.world.setAccount a account) =
      l.world := World.setAccount_restore l.world a account
  have kept := worlds_note l _ _ restored
  simpa [saved, putAccount] using kept

@[simp] theorem saved_putSlot (l : Ledger) (place : Slot) (value : Word) :
    (l.putSlot place value).saved = l.saved := by
  have restored : (Undo.slot place (l.world.slot? place)).apply
      (l.world.setSlot place (World.stored value)) = (l.remember place).world := by
    rw [world_remember]
    exact World.setSlot_restore l.world place (World.stored value)
  have kept := worlds_note (l.remember place) _ _ restored
  simpa [saved, putSlot] using kept

theorem saved_foldl {α : Type} {f : Ledger → α → Ledger}
    (h : ∀ l x, (f l x).saved = l.saved) (xs : List α) (l : Ledger) :
    (xs.foldl f l).saved = l.saved := by
  induction xs generalizing l with
  | nil => rfl
  | cons x xs ih => rw [List.foldl_cons, ih, h]

@[simp] theorem saved_clearStorage (l : Ledger) (a : Address) :
    (l.clearStorage a).saved = l.saved :=
  saved_foldl (fun l place => saved_putSlot l place 0) _ l

@[simp] theorem saved_modifyAccount (l : Ledger) (a : Address) (f : Account → Account) :
    (l.modifyAccount a f).saved = l.saved :=
  saved_putAccount l a _

@[simp] theorem saved_bumpNonce (l : Ledger) (a : Address) : (l.bumpNonce a).saved = l.saved :=
  saved_modifyAccount l a _

@[simp] theorem saved_store (l : Ledger) (a : Address) (key value : Word) :
    (l.store a key value).saved = l.saved :=
  saved_putSlot l (a, key) value

@[simp] theorem saved_createAccount (l : Ledger) (a : Address) :
    (l.createAccount a).saved = l.saved := by
  simp [createAccount]

@[simp] theorem saved_delete (l : Ledger) (a : Address) : (l.delete a).saved = l.saved := by
  simp [delete]

theorem saved_credit {l l' : Ledger} {a : Address} {amount : Word}
    (h : l.credit a amount = .ok l') : l'.saved = l.saved := by
  simp only [credit] at h
  split at h
  · cases h
  · cases h
    simp

theorem saved_debit {l l' : Ledger} {a : Address} {amount : Word}
    (h : l.debit a amount = .ok l') : l'.saved = l.saved := by
  simp only [debit] at h
  split at h
  · cases h
  · cases h
    simp

theorem saved_saveCode {l l' : Ledger} {a : Address} {code : ByteArray}
    (h : l.saveCode a code = .ok l') : l'.saved = l.saved := by
  simp only [saveCode] at h
  split at h
  · cases h
    simp
  · cases h

@[simp] theorem world_checkpoint (l : Ledger) : l.checkpoint.world = l.world := rfl

@[simp] theorem saved_checkpoint (l : Ledger) : l.checkpoint.saved = l.world :: l.saved := rfl

/-- Committing keeps the world and forgets the one it could have gone back to. -/
theorem commit_of_saved {l : Ledger} {w : World} {rest : List World}
    (h : l.saved = w :: rest) :
    ∃ l', l.commit = .ok l' ∧ l'.world = l.world ∧ l'.saved = rest ∧
      l'.initial = if rest.isEmpty then ∅ else l.initial := by
  simp only [saved] at h
  match open_ : l.checkpoints with
  | [] => simp [open_, Undo.worlds] at h
  | [top] =>
      simp only [open_, Undo.worlds, List.cons.injEq] at h
      obtain ⟨-, rfl⟩ := h
      exact ⟨{ l with checkpoints := [], initial := ∅ }, by simp [commit, open_], rfl, rfl, rfl⟩
  | top :: next :: older =>
      simp only [open_, Undo.worlds, List.cons.injEq] at h
      obtain ⟨-, rfl⟩ := h
      refine ⟨{ l with checkpoints := (top ++ next) :: older }, by simp [commit, open_], rfl, ?_, rfl⟩
      simp only [saved, Undo.worlds, Undo.applyAll_append]

/-- Rolling back restores the world of the innermost checkpoint. -/
theorem rollback_of_saved {l : Ledger} {w : World} {rest : List World}
    (h : l.saved = w :: rest) :
    ∃ l', l.rollback = .ok l' ∧ l'.world = w ∧ l'.saved = rest ∧
      l'.initial = if rest.isEmpty then ∅ else l.initial := by
  simp only [saved] at h
  match open_ : l.checkpoints with
  | [] => simp [open_, Undo.worlds] at h
  | top :: older =>
      simp only [open_, Undo.worlds, List.cons.injEq] at h
      obtain ⟨rfl, rfl⟩ := h
      refine ⟨_, by simp only [rollback, open_]; rfl, rfl, rfl, ?_⟩
      cases older <;> rfl

end Ledger
end EvmEngine
