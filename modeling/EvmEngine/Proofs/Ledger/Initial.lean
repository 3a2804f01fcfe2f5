import EvmEngine.Proofs.Ledger.Saved

/-!
The slots as they were when the outermost checkpoint was opened. A ledger does not keep that world;
it remembers the first value replaced in each slot, and a slot it remembers nothing of reads the
same in every world that can still be gone back to. Clearing an account slot by slot, as a ledger
does it, takes the same slots away as dropping them at once.
-/

namespace EvmEngine

namespace World

/-- Takes every slot of an account away. -/
def clearStorage (w : World) (a : Address) : World :=
  { w with storage := w.storage.filter fun place _ => place.1 ≠ a }

@[simp] theorem slot?_clearStorage (w : World) (a : Address) (place : Slot) :
    (w.clearStorage a).slot? place = if place.1 = a then none else w.slot? place := by
  cases h : w.storage[place]? <;> by_cases owned : place.1 = a <;>
    simp [clearStorage, slot?, h, owned]

theorem mem_slotsOf (w : World) (a : Address) (place : Slot) :
    place ∈ w.slotsOf a ↔ (w.slot? place).isSome ∧ place.1 = a := by
  simp [slotsOf, slot?, Std.ExtTreeMap.mem_keys]

end World

namespace Ledger

/-- The world when the outermost checkpoint was opened, or the present one where none is open. -/
def oldest (l : Ledger) : World :=
  l.saved.getLast?.getD l.world

/-- What a ledger knows of the slots as they were when the outermost checkpoint was opened. A slot
that it remembers nothing of has not been written since, so that it reads the same in every world
that can still be gone back to. -/
structure Remembers (l : Ledger) : Prop where
  closed : l.checkpoints = [] → l.initial = ∅
  remembered : ∀ place value, l.initial[place]? = some value →
    (l.oldest.slot? place).getD 0 = value
  untouched : ∀ place, l.initial[place]? = none →
    ∀ w ∈ l.world :: l.saved, w.slot? place = l.oldest.slot? place

theorem remembers_ofWorld (w : World) : (ofWorld w).Remembers where
  closed _ := rfl
  remembered place value h := by simp [ofWorld] at h
  untouched place _ v hv := by
    simp_all [ofWorld, oldest, saved, Undo.worlds]

theorem saved_eq_nil (l : Ledger) : l.saved = [] ↔ l.checkpoints = [] := by
  rw [← List.length_eq_zero_iff, length_saved, depth, List.length_eq_zero_iff]

namespace Remembers

theorem of_slots {l l' : Ledger} (h : l.Remembers) (saved : l'.saved = l.saved)
    (initial : l'.initial = l.initial)
    (slots : ∀ place, l'.world.slot? place = l.world.slot? place) : l'.Remembers := by
  have oldest (place : Slot) : l'.oldest.slot? place = l.oldest.slot? place := by
    simp only [oldest, saved]
    cases l.saved.getLast? with
    | none => exact slots place
    | some w => rfl
  refine ⟨?_, ?_, ?_⟩
  · intro outside
    rw [initial]
    apply h.closed
    rwa [← saved_eq_nil, ← saved, saved_eq_nil]
  · intro place value known
    rw [oldest]
    exact h.remembered place value (initial ▸ known)
  · intro place unknown w hw
    rw [oldest]
    rw [initial] at unknown
    rcases List.mem_cons.mp hw with rfl | older
    · rw [slots]
      exact h.untouched place unknown l.world List.mem_cons_self
    · exact h.untouched place unknown w (List.mem_cons_of_mem _ (saved ▸ older))

theorem putAccount {l : Ledger} (h : l.Remembers) (a : Address) (account : Option Account) :
    (l.putAccount a account).Remembers := by
  refine h.of_slots (saved_putAccount l a account) ?_ ?_
  · rw [Ledger.putAccount, note]
    dsimp only
    split <;> rfl
  · simp

theorem modifyAccount {l : Ledger} (h : l.Remembers) (a : Address) (f : Account → Account) :
    (l.modifyAccount a f).Remembers :=
  h.putAccount a _

theorem putSlot {l : Ledger} (h : l.Remembers) (place : Slot) (new : Word) :
    (l.putSlot place new).Remembers := by
  by_cases outside : l.checkpoints = []
  · have initial : (l.putSlot place new).initial = ∅ := by
      simp [Ledger.putSlot, remember, note, outside, h.closed outside]
    have saved : (l.putSlot place new).saved = [] := by
      rw [saved_putSlot, saved_eq_nil, outside]
    refine ⟨fun _ => initial, ?_, ?_⟩
    · intro other value known
      simp [initial] at known
    · intro other _ w hw
      simp only [saved, List.mem_singleton] at hw
      simp [oldest, saved, hw]
  · -- Inside a checkpoint the first value replaced is kept, and later ones change nothing.
    have initial : (l.putSlot place new).initial =
        l.initial.insertIfNew place ((l.world.slot? place).getD 0) := by
      rw [Ledger.putSlot, note]
      dsimp only
      split <;> simp [remember, outside]
    have oldest : (l.putSlot place new).oldest = l.oldest := by
      have some_saved : l.saved ≠ [] := fun h => outside ((saved_eq_nil l).mp h)
      simp [oldest, List.getLast?_eq_some_getLast some_saved]
    refine ⟨?_, ?_, ?_⟩
    · intro closed
      rw [← saved_eq_nil, saved_putSlot, saved_eq_nil] at closed
      exact absurd closed outside
    · intro other value known
      rw [initial, Std.ExtTreeMap.getElem?_insertIfNew] at known
      rw [oldest]
      split at known
      · next fresh =>
          obtain ⟨same, unknown⟩ := fresh
          obtain rfl : place = other := by simpa using same
          rw [← h.untouched place (by simpa using unknown) l.world List.mem_cons_self]
          simpa using known
      · exact h.remembered other value known
    · intro other unknown w hw
      rw [initial, Std.ExtTreeMap.getElem?_insertIfNew] at unknown
      rw [oldest]
      split at unknown
      · cases unknown
      · next written =>
          have distinct : place ≠ other := by
            rintro rfl
            simp [Std.ExtTreeMap.mem_iff_isSome_getElem?, unknown] at written
          rcases List.mem_cons.mp hw with rfl | older
          · simpa [distinct] using h.untouched other unknown l.world List.mem_cons_self
          · rw [saved_putSlot] at older
            exact h.untouched other unknown w (List.mem_cons_of_mem _ older)

theorem checkpoint {l : Ledger} (h : l.Remembers) : l.checkpoint.Remembers := by
  have oldest : l.checkpoint.oldest = l.oldest := by
    rw [oldest, oldest, saved_checkpoint, world_checkpoint]
    cases l.saved <;> simp
  refine ⟨?_, ?_, ?_⟩
  · intro closed
    simp [Ledger.checkpoint] at closed
  · intro place value known
    rw [oldest]
    exact h.remembered place value known
  · intro place unknown w hw
    rw [oldest]
    apply h.untouched place unknown
    simpa using hw

theorem close {l l' : Ledger} (h : l.Remembers) {w : World} {rest : List World}
    (open_ : l.saved = w :: rest) (saved : l'.saved = rest)
    (world : l'.world = l.world ∨ l'.world = w)
    (initial : l'.initial = if rest.isEmpty then ∅ else l.initial) : l'.Remembers := by
  cases rest with
  | nil =>
      refine ⟨fun _ => initial, ?_, ?_⟩
      · intro place value known
        simp [initial] at known
      · intro place _ v hv
        simp only [saved, List.mem_singleton] at hv
        simp [oldest, saved, hv]
  | cons next older =>
      have oldest : l'.oldest = l.oldest := by
        simp [oldest, saved, open_, List.getLast?_eq_some_getLast]
      simp only [List.isEmpty_cons, Bool.false_eq_true, if_false] at initial
      refine ⟨?_, ?_, ?_⟩
      · intro closed
        rw [← saved_eq_nil, saved] at closed
        cases closed
      · intro place value known
        rw [oldest]
        exact h.remembered place value (initial ▸ known)
      · intro place unknown v hv
        rw [oldest]
        rw [initial] at unknown
        apply h.untouched place unknown
        rw [saved] at hv
        rw [open_]
        rcases List.mem_cons.mp hv with rfl | older
        · rcases world with same | restored
          · simp [same]
          · simp [restored]
        · exact List.mem_cons_of_mem _ (List.mem_cons_of_mem _ older)

theorem clearStorage {l : Ledger} (h : l.Remembers) (a : Address) :
    (l.clearStorage a).Remembers := by
  simp only [Ledger.clearStorage]
  generalize l.world.slotsOf a = places
  induction places generalizing l with
  | nil => exact h
  | cons place places ih => exact ih (h.putSlot place 0)

theorem initialValue_eq {l : Ledger} (h : l.Remembers) (a : Address) (key : Word) :
    l.initialValue a key = (l.oldest.slot? (a, key)).getD 0 := by
  simp only [initialValue]
  cases known : l.initial[(a, key)]? with
  | some value => exact (h.remembered _ _ known).symm
  | none =>
      rw [← h.untouched _ known l.world List.mem_cons_self]
      rfl

end Remembers

theorem slot?_foldl_putSlot (places : List Slot) (l : Ledger) (place : Slot) :
    (places.foldl (·.putSlot · 0) l).world.slot? place =
      if place ∈ places then none else l.world.slot? place := by
  induction places generalizing l with
  | nil => simp
  | cons first rest ih =>
      rw [List.foldl_cons, ih]
      by_cases later : place ∈ rest
      · simp [later]
      · by_cases same : first = place
        · simp [same, World.stored]
        · simp [later, same, Ne.symm same]

theorem account?_foldl_putSlot (places : List Slot) (l : Ledger) (a : Address) :
    (places.foldl (·.putSlot · 0) l).world.account? a = l.world.account? a := by
  induction places generalizing l with
  | nil => rfl
  | cons first rest ih => rw [List.foldl_cons, ih]; simp

@[simp] theorem world_clearStorage (l : Ledger) (a : Address) :
    (l.clearStorage a).world = l.world.clearStorage a := by
  apply World.ext_lookup
  · intro b
    exact account?_foldl_putSlot _ l b
  · intro place
    rw [clearStorage, slot?_foldl_putSlot, World.slot?_clearStorage]
    by_cases owned : place.1 = a
    · cases held : l.world.slot? place <;> simp [World.mem_slotsOf, owned, held]
    · simp [World.mem_slotsOf, owned]

end Ledger
end EvmEngine
