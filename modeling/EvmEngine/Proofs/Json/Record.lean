import EvmEngine.Json.Record

/-!
What an object changes in a record: the fields that it names, each by what the object says of it,
and no others. Where a value is not accepted for a field it names, the record as a whole is not
read.
-/

namespace EvmEngine
namespace Json

section
variable {α : Type} {read? : Json → Option α} {members : List (String × Json)} {key : String}
  {held x : α}

/-- What comes to stand in a field that holds a value: what the object says of it, if it does. -/
def given? (read? : Json → Option α) (members : List (String × Json)) (key : String) (held : α) :
    Option α :=
  match member? members key with
  | none => some held
  | some value => read? value

/-- What an object says of a field, if it names it, can be read. -/
def Accepts (read? : Json → Option α) (members : List (String × Json)) (key : String) : Prop :=
  ∀ value ∈ member? members key, (read? value).isSome = true

instance : Decidable (Accepts read? members key) :=
  inferInstanceAs (Decidable (∀ value ∈ member? members key, (read? value).isSome = true))

/-- A field holds what the object says of it and, where the object does not name it, the default. -/
def Holds (read? : Json → Option α) (members : List (String × Json)) (key : String)
    (default x : α) : Prop :=
  match member? members key with
  | none => x = default
  | some value => read? value = some x

theorem given?_eq_some :
    given? read? members key held = some x ↔ Holds read? members key held x := by
  simp only [given?, Holds]
  cases member? members key with
  | none => exact Option.some_inj.trans eq_comm
  | some value => exact Iff.rfl

theorem isSome_given? :
    (given? read? members key held).isSome = true ↔ Accepts read? members key := by
  simp only [given?, Accepts]
  cases member? members key <;> simp

theorem Holds.congr {members' : List (String × Json)} (h : Holds read? members key held x)
    (same : member? members key = member? members' key) : Holds read? members' key held x := by
  rwa [Holds, ← same]

/-- What an object says of a field counts, whatever the default. -/
theorem Holds.of_said {value : Json} (said : member? members key = some value)
    (reads : read? value = some x) : Holds read? members key held x := by
  rwa [Holds, said]

theorem Holds.accepts (h : Holds read? members key held x) : Accepts read? members key :=
  isSome_given?.mp (Option.isSome_iff_exists.mpr ⟨x, given?_eq_some.mpr h⟩)

theorem Accepts.holds (h : Accepts read? members key) (default : α) :
    ∃ x, Holds read? members key default x := by
  obtain ⟨x, given⟩ := Option.isSome_iff_exists.mp (isSome_given?.mpr h)
  exact ⟨x, given?_eq_some.mp given⟩

/-- What has been given is given again. -/
theorem given?_again (h : given? read? members key held = some x) :
    given? read? members key x = some x := by
  simp only [given?] at h ⊢
  cases said : member? members key with
  | none => rfl
  | some value =>
      rw [said] at h
      exact h

end

theorem member?_cons (first : String × Json) (rest : List (String × Json)) (key : String) :
    member? (first :: rest) key = if first.1 = key then some first.2 else member? rest key := by
  simp only [member?, List.find?_cons]
  by_cases same : first.1 = key
  · simp [same]
  · simp [same, beq_false_of_ne same]

/-- A member that is added is found, and so are all others. -/
theorem member?_insertMember (members : List (String × Json)) (key other : String) (value : Json) :
    member? (insertMember members key value) other =
      if key = other then some value else member? members other := by
  simp only [insertMember]
  induction members with
  | nil => exact member?_cons (key, value) [] other
  | cons first rest ih =>
      rw [member?_cons, List.filter_cons]
      by_cases replaced : first.1 = key
      · simp only [replaced, bne_self_eq_false, Bool.false_eq_true, if_false, ih]
        split <;> rfl
      · rw [if_pos (by simpa using replaced), List.cons_append, member?_cons, ih]
        by_cases found : first.1 = other
        · rw [if_pos found, if_pos found, if_neg fun same => replaced (found.trans same.symm)]
        · rw [if_neg found, if_neg found]

theorem member?_of_mem {members : List (String × Json)} {key : String} {value : Json}
    (distinct : (members.map Prod.fst).Nodup) (member : (key, value) ∈ members) :
    member? members key = some value := by
  induction members with
  | nil => cases member
  | cons first rest ih =>
      obtain ⟨fresh, distinct⟩ := List.nodup_cons.mp distinct
      rw [member?_cons]
      cases member with
      | head => exact if_pos rfl
      | tail _ later =>
          have other : first.1 ≠ key := by
            rintro rfl
            exact fresh (List.mem_map.mpr ⟨(first.1, value), later, rfl⟩)
          rw [if_neg other]
          exact ih distinct later

theorem uint64?_toNat (x : UInt64) : uint64? (.int x.toNat) = some x := by
  have small : x.toNat < UInt64.size := x.toNat_lt_size
  simp [uint64?, small]

theorem uint8?_toNat (x : UInt8) : uint8? (.int x.toNat) = some x := by
  have small : x.toNat < UInt8.size := x.toNat_lt_size
  simp [uint8?, small]

section
variable {α β : Type} {f : α → Option β}

theorem isSome_mapM {l : List α} : (l.mapM f).isSome = true ↔ ∀ x ∈ l, (f x).isSome = true := by
  induction l with
  | nil => simp
  | cons x rest ih =>
      rw [List.mapM_cons, List.forall_mem_cons, ← ih]
      cases f x with
      | none => simp
      | some y => cases rest.mapM f <;> simp

theorem mapM_eq_some_map {g : α → β} {l : List α} :
    l.mapM f = some (l.map g) ↔ ∀ x ∈ l, f x = some (g x) := by
  induction l with
  | nil => simp
  | cons x rest ih =>
      rw [List.mapM_cons, List.forall_mem_cons, ← ih]
      cases f x with
      | none => simp
      | some y => cases rest.mapM f <;> simp

end

namespace Record

variable {σ α : Type} {members : List (String × Json)} {base : σ}

/-- The first field changes by itself. -/
theorem ofMembers?_cons {field : Field σ} {fields : List (Field σ)} {read? : Json → Option α}
    {set : α → σ} {held : α} {next : α → Option σ}
    (reads : ∀ value, field.replace? base value = (read? value).map set) (same : set held = base)
    (rest : ∀ x, ofMembers? fields (set x) members = next x) :
    ofMembers? (field :: fields) base members =
      (given? read? members field.key held).bind next := by
  simp only [ofMembers?, List.foldlM_cons, given?] at rest ⊢
  cases member? members field.key with
  | none =>
      rw [← same]
      exact rest held
  | some value =>
      simp only [reads]
      cases read? value with
      | none => rfl
      | some x => exact rest x

/-- Fields that hold values of one kind, those of a row from a place on: each is read in the same
way and replaces the value at its place. -/
def InRow (values : σ → List α) (read? : Json → Option α) : Nat → List (Field σ) → Prop
  | _, [] => True
  | i, field :: rest =>
      (∀ record value, (field.replace? record value).map values =
        (read? value).map ((values record).set i)) ∧ InRow values read? (i + 1) rest

theorem ofMembers?_eq_bind (field : Field σ) (rest : List (Field σ)) :
    ofMembers? (field :: rest) base members =
      (ofMembers? [field] base members).bind (ofMembers? rest · members) := by
  simp only [ofMembers?, List.foldlM_cons, List.foldlM_nil, bind_pure]
  rfl

/-- One field changes the value at its place. -/
theorem values_ofMembers?_singleton {values : σ → List α} {read? : Json → Option α}
    {field : Field σ} {i : Nat} (inside : i < (values base).length)
    (replaces : ∀ value, (field.replace? base value).map values =
      (read? value).map ((values base).set i)) :
    (ofMembers? [field] base members).map values =
      (given? read? members field.key (values base)[i]).map ((values base).set i) := by
  simp only [ofMembers?, List.foldlM_cons, List.foldlM_nil, bind_pure, given?]
  cases member? members field.key with
  | none => simp
  | some value => exact replaces value

/-- An object changes a row value by value. -/
theorem values_ofMembers? {values : σ → List α} {read? : Json → Option α} {fields : List (Field σ)}
    {i : Nat} (row : InRow values read? i fields)
    (long : (values base).length = i + fields.length) :
    (ofMembers? fields base members).map values =
      ((fields.zip ((values base).drop i)).mapM fun place : Field σ × α =>
        given? read? members place.1.key place.2).map ((values base).take i ++ ·) := by
  induction fields generalizing i base with
  | nil =>
      have whole : (values base).take i = values base :=
        List.take_of_length_le (Nat.le_of_eq long)
      simp [ofMembers?, whole]
  | cons field rest ih =>
      obtain ⟨first, others⟩ := row
      have inside : i < (values base).length := by
        rw [long, List.length_cons]
        omega
      have changed := @values_ofMembers?_singleton _ _ members _ _ _ _ _ inside (first base)
      rw [ofMembers?_eq_bind, List.drop_eq_getElem_cons inside, List.zip_cons_cons, List.mapM_cons]
      cases given : given? read? members field.key (values base)[i] with
      | none =>
          rw [given] at changed
          have none := Option.map_eq_none_iff.mp changed
          simp [none]
      | some x =>
          rw [given] at changed
          obtain ⟨base', made, same⟩ := Option.map_eq_some_iff.mp changed
          have long' : (values base').length = i + 1 + rest.length := by
            rw [same, List.length_set, long, List.length_cons]
            omega
          have later := ih others long'
          rw [same, List.drop_set_of_lt (Nat.lt_succ_self i), List.take_add_one,
            List.take_set_of_le (Nat.le_refl i), List.getElem?_set_self inside] at later
          rw [made, Option.bind_some, later, Nat.succ_eq_add_one]
          cases List.mapM (fun place : Field σ × α => given? read? members place.1.key place.2)
              (rest.zip ((values base).drop (i + 1))) with
          | none => rfl
          | some values' => exact congrArg some (List.append_assoc _ [x] values')

/-- The cells of a table hold values of one kind, each under its key, and tell records apart; the
fields are those cells in their order. -/
structure Tables (fields : List (Field σ)) (read? : Json → Option α)
    (cells : List (String × (σ → α))) : Prop where
  row : InRow (fun record => cells.map (·.2 record)) read? 0 fields
  keys : fields.map Field.key = cells.map Prod.fst
  apart : ∀ r r' : σ, cells.map (·.2 r) = cells.map (·.2 r') → r = r'

namespace Tables

variable {fields : List (Field σ)} {read? : Json → Option α} {cells : List (String × (σ → α))}
  {record : σ}

theorem values (h : Tables fields read? cells) (base : σ) (members : List (String × Json)) :
    (ofMembers? fields base members).map (fun record => cells.map (·.2 record)) =
      cells.mapM fun cell => given? read? members cell.1 (cell.2 base) := by
  have count := congrArg List.length h.keys
  simp only [List.length_map] at count
  refine (values_ofMembers? h.row (by simp [count])).trans ?_
  have zipped {fields : List (Field σ)} {cells : List (String × (σ → α))}
      (keys : fields.map Field.key = cells.map Prod.fst) :
      ((fields.zip (cells.map (·.2 base))).mapM fun place : Field σ × α =>
        given? read? members place.1.key place.2) =
        cells.mapM fun cell => given? read? members cell.1 (cell.2 base) := by
    induction cells generalizing fields with
    | nil => simp
    | cons cell rest ih =>
        cases fields with
        | nil => cases keys
        | cons field others =>
            obtain ⟨first, keys⟩ := List.cons.inj keys
            simp only [List.map_cons, List.zip_cons_cons, List.mapM_cons, first]
            rw [ih keys]
  simp [zipped h.keys]

/-- A record that is read holds in every cell what the object says or what was there, and no other
record does. -/
theorem ofMembers?_eq_some (h : Tables fields read? cells) :
    ofMembers? fields base members = some record ↔
      ∀ cell ∈ cells, Holds read? members cell.1 (cell.2 base) (cell.2 record) := by
  have apart := Option.map_injective fun r r' => h.apart r r'
  rw [← apart.eq_iff, h.values base members, Option.map_some, mapM_eq_some_map]
  simp only [given?_eq_some]

theorem isSome_ofMembers? (h : Tables fields read? cells) :
    (ofMembers? fields base members).isSome = true ↔
      ∀ cell ∈ cells, Accepts read? members cell.1 := by
  rw [← Option.isSome_map, h.values base members, isSome_mapM]
  simp only [isSome_given?]

end Tables
end Record
end Json
end EvmEngine
