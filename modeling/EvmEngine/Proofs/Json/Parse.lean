import EvmEngine.Proofs.Json.Print

/-!
What is read can be printed and is then read again: an integer fits a machine integer, an object
holds each key once, and nothing is nested deeper than it may be.
-/

namespace EvmEngine
namespace Json

open Reader

theorem printable_integer (depth : Nat) (negative : Bool) (n : Nat) :
    Printable depth (integer negative n) := by
  have least : Int64.minValue.toInt ≤ 0 := by decide
  unfold integer
  split
  · split
    · exact .real depth
    · exact .int depth _ (by omega) (by omega)
  · split
    · exact .nat depth ‹_›
    · exact .real depth

theorem nodup_insertMember {members : List (String × Json)}
    (apart : (members.map Prod.fst).Nodup) (key : String) (value : Json) :
    ((insertMember members key value).map Prod.fst).Nodup := by
  rw [insertMember, List.map_append, List.map_cons, List.map_nil]
  refine List.Nodup.append (apart.sublist (List.filter_sublist.map _)) (List.nodup_singleton key) ?_
  refine List.disjoint_singleton.mpr fun again => ?_
  obtain ⟨member, kept, same⟩ := List.mem_map.mp again
  simp [same] at kept

theorem forall_mem_insertMember {members : List (String × Json)} {p : Json → Prop}
    (each : ∀ member ∈ members, p member.2) (key : String) {value : Json} (added : p value) :
    ∀ member ∈ insertMember members key value, p member.2 := by
  intro member listed
  obtain kept | last := List.mem_append.mp listed
  · exact each member (List.mem_of_mem_filter kept)
  · cases List.mem_singleton.mp last
    exact added

/-- An object with one more member can be printed, too. -/
theorem Printable.insertMember {depth : Nat} {members : List (String × Json)}
    (h : Printable (depth + 1) (.obj members)) (key : String) {value : Json}
    (added : Printable depth value) :
    Printable (depth + 1) (.obj (insertMember members key value)) := by
  cases h with
  | obj _ _ each apart =>
      exact .obj depth _ (forall_mem_insertMember each key added)
        (nodup_insertMember apart key value)

/-- A reader that reads nothing but what can be printed. -/
def Sound (depth : Nat) (reader : Rest → Option (Json × Rest)) : Prop :=
  ∀ cs value rest, reader cs = some (value, rest) → Printable depth value

theorem sound_number? (depth : Nat) : Sound depth number? := by
  intro cs value rest read
  simp only [number?, Option.bind_eq_bind, Option.bind_eq_some_iff] at read
  obtain ⟨whole, -, fraction, -, exponent, -, read⟩ := read
  split at read
  · split at read
    · cases read
      exact printable_integer ..
    · cases read
      exact .real depth
  · cases read

section
variable {depth fuel : Nat} {reader : Rest → Option (Json × Rest)} {cs rest : Rest} {value : Json}

theorem Sound.items? (sound : Sound depth reader) {before : List Json}
    (each : ∀ item ∈ before, Printable depth item)
    (read : items? reader fuel cs before = some (value, rest)) : Printable (depth + 1) value := by
  induction fuel generalizing cs before with
  | zero => cases read
  | succ fuel ih =>
      rw [Reader.items?] at read
      split at read
      · cases read
      · next item cs' first =>
          have each' := List.forall_mem_cons.mpr ⟨sound _ _ _ first, each⟩
          split at read
          · exact ih each' read
          · cases read
            exact .arr depth _ fun item listed => each' item (List.mem_reverse.mp listed)
          · cases read

theorem Sound.members? (sound : Sound depth reader) {before : List (String × Json)}
    (printable : Printable (depth + 1) (obj before))
    (read : members? reader fuel cs before = some (value, rest)) : Printable (depth + 1) value := by
  induction fuel generalizing cs before with
  | zero => cases read
  | succ fuel ih =>
      rw [Reader.members?] at read
      split at read
      · split at read
        · cases read
        · split at read
          · split at read
            · cases read
            · next first =>
                have added (key : String) := printable.insertMember key (sound _ _ _ first)
                split at read
                · exact ih (added _) read
                · cases read
                  exact added _
                · cases read
          · cases read
      · cases read

end

/-- A value made of what was read can be printed if every such value can. -/
theorem printable_of_map {α : Type} {depth : Nat} {make : α → Json × Rest}
    (each : ∀ x, Printable depth (make x).1) {read? : Option α} {value : Json} {rest : Rest}
    (read : read?.map make = some (value, rest)) : Printable depth value := by
  obtain ⟨x, -, made⟩ := Option.map_eq_some_iff.mp read
  have printable := each x
  rw [made] at printable
  exact printable

/-- A value reads as it should where what is nested in it does. -/
theorem sound_value?_of_inner {depth : Nat}
    (inner : ∀ depth', depth = depth' + 1 → Sound depth' (value? depth')) :
    Sound depth (value? depth) := by
  intro cs value rest read
  unfold value? at read
  split at read
  · exact printable_of_map (fun x => .str depth x.1) read
  · split at read
    · cases read
    · next depth' =>
        split at read
        · cases read
          exact .arr depth' [] (List.forall_mem_nil _)
        · exact (inner depth' rfl).items? (List.forall_mem_nil _) read
  · split at read
    · cases read
    · next depth' =>
        have empty : Printable (depth' + 1) (obj []) :=
          .obj depth' [] (List.forall_mem_nil _) List.nodup_nil
        split at read
        · cases read
          exact empty
        · exact (inner depth' rfl).members? empty read
  · exact printable_of_map (fun _ => .null depth) read
  · exact printable_of_map (fun _ => .bool depth true) read
  · exact printable_of_map (fun _ => .bool depth false) read
  · exact sound_number? depth _ _ _ read

theorem sound_value? (depth : Nat) : Sound depth (value? depth) := by
  induction depth with
  | zero => exact sound_value?_of_inner fun _ none => absurd none (Nat.zero_ne_add_one _)
  | succ depth ih =>
      refine sound_value?_of_inner fun depth' same => ?_
      cases same
      exact ih

/-- Whatever a text is read as can be printed. -/
theorem printable_of_parse? {text : String} {value : Json} (read : parse? text = some value) :
    Printable maxDepth value := by
  rw [parse?] at read
  split at read
  · cases read
  · next first =>
      split at read
      · cases read
        exact sound_value? _ _ _ _ first
      · cases read

end Json
end EvmEngine
