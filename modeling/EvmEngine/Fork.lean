import EvmEngine.Text.Blank
import EvmEngine.Fault

/-!
The protocol upgrades, in the order in which they became active.
-/

namespace EvmEngine

inductive Fork
  | frontier
  | homestead
  | tangerineWhistle
  | spuriousDragon
  | byzantium
  | constantinople
  | petersburg
  | istanbul
  deriving DecidableEq

namespace Fork

def all : List Fork :=
  [frontier, homestead, tangerineWhistle, spuriousDragon, byzantium, constantinople, petersburg,
    istanbul]

/-- The place of an upgrade in the order of activation. -/
def rank : Fork → Nat
  | frontier => 0
  | homestead => 1
  | tangerineWhistle => 2
  | spuriousDragon => 3
  | byzantium => 4
  | constantinople => 5
  | petersburg => 6
  | istanbul => 7

instance : LE Fork := ⟨fun a b => a.rank ≤ b.rank⟩

instance (a b : Fork) : Decidable (a ≤ b) := inferInstanceAs (Decidable (a.rank ≤ b.rank))

def name : Fork → String
  | frontier => "Frontier"
  | homestead => "Homestead"
  | tangerineWhistle => "TangerineWhistle"
  | spuriousDragon => "SpuriousDragon"
  | byzantium => "Byzantium"
  | constantinople => "Constantinople"
  | petersburg => "Petersburg"
  | istanbul => "Istanbul"

def ofName? (text : String) : Option Fork :=
  all.find? (·.name == text)

/-- Reads a name loosely: blanks around it, hyphens, underscores, spaces and letter case do not
count. -/
def parse (text : String) : Except ConfigError Fork :=
  let ignored := fun c => c == '-' || c == '_' || c == ' '
  let wanted := ((Text.trim text.toList).filter (!ignored ·)).map Char.toLower
  match all.find? (fun fork => fork.name.toList.map Char.toLower == wanted) with
  | some fork => .ok fork
  | none => .error (.unknownFork text)

end Fork
end EvmEngine
