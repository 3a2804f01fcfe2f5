import EvmEngine.Proofs.Calls.Slots
import EvmEngine.Proofs.Ledger.Supply
import Mathlib.Algebra.BigOperators.Ring.Finset
import Mathlib.Algebra.Order.BigOperators.Group.Finset
import Mathlib.Data.FinEnum

/-!
The slots that a transaction has cleared: those that held something when the outermost checkpoint was
opened and hold nothing now. How many there are is a sum over all slots, as is any other tally of the
values at the start and now; writing one slot changes one term of it.
-/

namespace EvmEngine

/-- Chosen rather than counted out, so that nothing ever goes through all slots. -/
noncomputable instance Slot.fintype : Fintype Slot :=
  .ofFinite Slot

namespace World

/-- What a slot holds, zero where nothing is stored. -/
def value (w : World) (place : Slot) : Word :=
  (w.slot? place).getD 0

/-- A sum over all slots, of a number for the value at the start and the one now. -/
noncomputable def tally (φ : Word → Word → Int) (start w : World) : Int :=
  ∑ place : Slot, φ (start.value place) (w.value place)

/-- Only accounts with code hold anything in their slots. -/
def Coded (w : World) : Prop :=
  ∀ place, w.value place ≠ 0 → (w.code place.1).isEmpty = false

variable {φ : Word → Word → Int} {start w w' : World}

@[simp] theorem value_setSlot (w : World) (place other : Slot) (new : Word) :
    (w.setSlot place (stored new)).value other = if place = other then new else w.value other := by
  simp only [value, slot?_setSlot]
  split
  · simp only [stored]
    split
    · next zero => rw [zero, Option.getD_none]
    · rfl
  · rfl

theorem Coded.setSlot {w : World} (h : w.Coded) (place : Slot) (new : Word)
    (has : (w.code place.1).isEmpty = false) : (w.setSlot place (stored new)).Coded := by
  intro other held
  have code : (w.setSlot place (stored new)).code other.1 = w.code other.1 := by simp [World.code]
  rw [code]
  rw [value_setSlot] at held
  split at held
  · next same => exact same ▸ has
  · exact h other held

theorem value_eq_of_slots (slots : ∀ place, w'.slot? place = w.slot? place) (place : Slot) :
    w'.value place = w.value place := by
  rw [value, slots, value]

/-- Writing a slot changes what that slot adds to a tally. -/
theorem tally_setSlot (φ : Word → Word → Int) (start w : World) (place : Slot) (new : Word) :
    tally φ start (w.setSlot place (stored new)) + φ (start.value place) (w.value place) =
      tally φ start w + φ (start.value place) new := by
  have others : ∑ other ∈ Finset.univ.erase place,
        φ (start.value other) ((w.setSlot place (stored new)).value other) =
      ∑ other ∈ Finset.univ.erase place, φ (start.value other) (w.value other) := by
    refine Finset.sum_congr rfl fun other inside => ?_
    rw [value_setSlot, if_neg (Finset.ne_of_mem_erase inside).symm]
  rw [tally, tally, ← Finset.add_sum_erase _ _ (Finset.mem_univ place),
    ← Finset.add_sum_erase _ _ (Finset.mem_univ place), others, value_setSlot, if_pos rfl]
  omega

theorem tally_congr (φ : Word → Word → Int) (slots : ∀ place, w'.slot? place = w.slot? place) :
    tally φ start w' = tally φ start w :=
  Finset.sum_congr rfl fun place _ => by rw [value_eq_of_slots slots]

theorem tally_nonneg (nonneg : ∀ initial now, 0 ≤ φ initial now) : 0 ≤ tally φ start w :=
  Finset.sum_nonneg fun _ _ => nonneg _ _

/-- A tally of what has changed comes to nothing where nothing has. -/
theorem tally_start (unchanged : ∀ initial, φ initial initial = 0)
    (slots : ∀ place, w.slot? place = start.slot? place) : tally φ start w = 0 :=
  Finset.sum_eq_zero fun place _ => by rw [value_eq_of_slots slots, unchanged]

/-- Clearing the slots of accounts without code does not raise a tally, if slots that held nothing at
the start add least where they hold nothing now: the accounts that had code have it still. -/
theorem Renews.tally_le (least : ∀ now, φ 0 0 ≤ φ 0 now) (coded : start.Coded)
    (code : start.KeepsCode w) (renews : w.Renews w') : tally φ start w' ≤ tally φ start w := by
  refine Finset.sum_le_sum fun (a, key) _ => ?_
  obtain same | ⟨cleared, bare⟩ := renews a key
  · have kept : w'.value (a, key) = w.value (a, key) := by rw [value, same, value]
    rw [kept]
  · have nothing : start.value (a, key) = 0 := by
      by_contra held
      have has := coded (a, key) held
      rw [← code a has, bare] at has
      cases has
    have empty : w'.value (a, key) = 0 := by rw [value, cleared, Option.getD_none]
    rw [nothing, empty]
    exact least _

end World

namespace Ledger

/-- The slots that held something when the outermost checkpoint was opened and hold nothing now, each
once. -/
def cleared (l : Ledger) : List Slot :=
  l.initial.keys.filter fun place =>
    l.initialValue place.1 place.2 ≠ 0 && l.load place.1 place.2 = 0

theorem load_eq_value (l : Ledger) (place : Slot) : l.load place.1 place.2 = l.world.value place :=
  rfl

theorem mem_cleared {l : Ledger} {place : Slot} :
    place ∈ l.cleared ↔ l.initialValue place.1 place.2 ≠ 0 ∧ l.load place.1 place.2 = 0 := by
  simp only [cleared, List.mem_filter, Std.ExtTreeMap.mem_keys, Bool.and_eq_true, decide_eq_true_eq,
    and_iff_right_iff_imp]
  rintro ⟨held, empty⟩
  -- A slot that is not remembered still has its initial value.
  by_contra unknown
  have absent : l.initial[place]? = none := Std.ExtTreeMap.getElem?_eq_none unknown
  rw [initialValue, absent] at held
  exact held empty

theorem nodup_cleared (l : Ledger) : l.cleared.Nodup :=
  Std.ExtTreeMap.nodup_keys.filter _

/-- So much for each slot that is cleared is a tally. -/
theorem mul_length_cleared {l : Ledger} {start : World} (amount : Int)
    (initial : ∀ place : Slot, l.initialValue place.1 place.2 = start.value place) :
    amount * l.cleared.length =
      World.tally (fun initial now => if initial ≠ 0 ∧ now = 0 then amount else 0) start l.world := by
  have same : l.cleared.toFinset =
      Finset.univ.filter fun place => start.value place ≠ 0 ∧ l.world.value place = 0 := by
    ext place
    rw [List.mem_toFinset, mem_cleared, initial, load_eq_value, Finset.mem_filter]
    simp
  rw [World.tally, ← Finset.sum_filter, ← same, Finset.sum_const, nsmul_eq_mul,
    List.toFinset_card_of_nodup l.nodup_cleared]
  exact Int.mul_comm _ _

end Ledger
end EvmEngine
