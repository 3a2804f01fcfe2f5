import EvmEngine.Json

/-!
One value laid over another. Where both are objects their members are laid over each other; anything
else takes the place of what it is laid over.
-/

namespace EvmEngine
namespace Json

mutual

/-- Lays a value over another. -/
def merge (base : Json) : Json → Json
  | obj overlay =>
      match base with
      | obj members => obj (mergeMembers members overlay)
      | _ => obj overlay
  | value => value

/-- Lays members over those of an object, one after the other. A key that is not there is added. -/
def mergeMembers (members : List (String × Json)) : List (String × Json) → List (String × Json)
  | [] => members
  | (key, value) :: rest =>
      let merged :=
        match member? members key with
        | some held => merge held value
        | none => value
      mergeMembers (insertMember members key merged) rest

end

end Json
end EvmEngine
