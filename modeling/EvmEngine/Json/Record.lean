import EvmEngine.Json

/-!
Records as JSON values. A record is a list of fields, each with its key, a way to put what a value
says in it, and a way to write it. An object is read by its keys and an array in the order of the
fields; a field that is missing is that of the default.
-/

namespace EvmEngine
namespace Json

namespace Record

structure Field (σ : Type) where
  key : String
  replace? : σ → Json → Option σ
  write : σ → Json

variable {σ : Type}

/-- Reads a record from the members of an object. Members that belong to no field do not count. -/
def ofMembers? (fields : List (Field σ)) (default : σ) (members : List (String × Json)) :
    Option σ :=
  fields.foldlM (fun record field =>
    match member? members field.key with
    | none => some record
    | some value => field.replace? record value) default

/-- Reads a record from the items of an array, of which there are no more than fields. -/
def ofItems? (fields : List (Field σ)) (default : σ) (items : List Json) : Option σ :=
  if fields.length < items.length then none
  else (fields.zip items).foldlM (fun record (field, value) => field.replace? record value) default

/-- Reads a record. -/
def read? (fields : List (Field σ)) (default : σ) : Json → Option σ
  | obj members => ofMembers? fields default members
  | arr items => ofItems? fields default items
  | _ => none

/-- What is written of a record: every field under its key. -/
def written (fields : List (Field σ)) (record : σ) : List (String × Json) :=
  fields.map fun field => (field.key, field.write record)

end Record

def uint64? : Json → Option UInt64
  | int n => if 0 ≤ n ∧ n.toNat < UInt64.size then some (UInt64.ofNat n.toNat) else none
  | _ => none

def uint8? : Json → Option UInt8
  | int n => if 0 ≤ n ∧ n.toNat < UInt8.size then some (UInt8.ofNat n.toNat) else none
  | _ => none

def bool? : Json → Option Bool
  | bool b => some b
  | _ => none

/-- A choice by its name: as a string, or as an object with nothing but a null of that name. -/
def choice? {α : Type} (ofName? : String → Option α) : Json → Option α
  | str name => ofName? name
  | obj [(name, null)] => ofName? name
  | _ => none

end Json
end EvmEngine
