import EvmEngine.Json.Merge
import EvmEngine.Proofs.Json.Record

/-!
What an object holds that is laid over another: under each key what both hold there, laid over each
other. A record that is read from the whole is the one that was written below, changed by what lies
over it.
-/

namespace EvmEngine
namespace Json

theorem merge_of_leaf {held : Json} (leaf : ∀ members, held ≠ obj members) (value : Json) :
    merge held value = value := by
  cases value with
  | obj overlay =>
      cases held with
      | obj members => exact absurd rfl (leaf members)
      | null | bool | int | real | str | arr => rfl
  | null | bool | int | real | str | arr => rfl

theorem member?_eq_none {members : List (String × Json)} {key : String}
    (fresh : key ∉ members.map Prod.fst) : member? members key = none := by
  rw [member?, Option.map_eq_none_iff, List.find?_eq_none]
  intro member listed same
  exact fresh (List.mem_map.mpr ⟨member, listed, beq_iff_eq.mp same⟩)

/-- Members that are laid over others meet them key by key. -/
theorem member?_mergeMembers {overlay : List (String × Json)}
    (apart : (overlay.map Prod.fst).Nodup) (base : List (String × Json)) (key : String) :
    member? (mergeMembers base overlay) key =
      (member? base key).merge merge (member? overlay key) := by
  induction overlay generalizing base with
  | nil => exact Option.merge_none_right.symm
  | cons first rest ih =>
      obtain ⟨key', value⟩ := first
      obtain ⟨fresh, apart⟩ := List.nodup_cons.mp apart
      rw [mergeMembers, ih apart, member?_insertMember, member?_cons]
      by_cases same : key' = key
      · subst same
        rw [if_pos rfl, if_pos rfl, member?_eq_none fresh, Option.merge_none_right]
        cases member? base key' <;> rfl
      · rw [if_neg same, if_neg same]

section
variable {α : Type} {read? : Json → Option α} {base overlay : List (String × Json)} {key : String}
  {slot : Json} {held : α}

/-- Where what lies below is not an object, the members over it are read instead of it. -/
theorem given?_mergeMembers (apart : (overlay.map Prod.fst).Nodup)
    (said : member? base key = some slot) (leaf : ∀ members, slot ≠ obj members)
    (reads : read? slot = some held) (default : α) :
    given? read? (mergeMembers base overlay) key default = given? read? overlay key held := by
  simp only [given?, member?_mergeMembers apart, said]
  cases member? overlay key with
  | none => exact reads
  | some value => exact congrArg read? (merge_of_leaf leaf value)

end

namespace Record

variable {σ α : Type} {fields : List (Field σ)} {read? : Json → Option α}
  {cells : List (String × (σ → α))} {written overlay : List (String × Json)} {record : σ}

/-- A table that is read from members laid over what is written of it is that table changed by
them. -/
theorem Tables.ofMembers?_mergeMembers (h : Tables fields read? cells)
    (apart : (overlay.map Prod.fst).Nodup)
    (writes : ∀ cell ∈ cells, ∃ slot, member? written cell.1 = some slot ∧
      (∀ members, slot ≠ obj members) ∧ read? slot = some (cell.2 record)) (default : σ) :
    ofMembers? fields default (mergeMembers written overlay) =
      ofMembers? fields record overlay := by
  refine Option.ext fun read => ?_
  rw [h.ofMembers?_eq_some, h.ofMembers?_eq_some]
  refine forall₂_congr fun cell listed => ?_
  obtain ⟨slot, said, leaf, reads⟩ := writes cell listed
  rw [← given?_eq_some, ← given?_eq_some, given?_mergeMembers apart said leaf reads]

end Record
end Json
end EvmEngine
