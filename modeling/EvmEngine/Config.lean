import EvmEngine.Json.Print
import EvmEngine.Rules.Overlay

/-!
The configuration of an engine: the settings a host gives as texts, and the rules that follow from
them.
-/

namespace EvmEngine

/-- Settings as they are found, each of which may be missing. -/
structure Settings where
  fork : Option String
  rulesText : Option String
  logLevel : Option String
  /-- Used where there is no level of the engine's own. -/
  sharedLogLevel : Option String
  simulationThreads : Option String

structure Config where
  fork : Fork
  /-- Changes to the rules of the fork, as a JSON text. -/
  rulesText : Option String
  logLevel : String
  simulationThreads : UInt64
  deriving DecidableEq

namespace Config

/-- A number in decimal digits, which may follow a plus sign. -/
def readCount? (text : String) : Option UInt64 :=
  let digits := match text.toList with
    | '+' :: rest => rest
    | other => other
  if digits.isEmpty || !digits.all Char.isDigit then none
  else
    let n := Json.Reader.natOfDigits digits
    if n < UInt64.size then some (UInt64.ofNat n) else none

/-- Only an unknown fork is an error; a thread count that is not a number counts as zero. -/
def ofSettings (s : Settings) : Except ConfigError Config := do
  let fork ← match s.fork with
    | some name => Fork.parse name
    | none => pure .istanbul
  return {
    fork
    rulesText := s.rulesText
    logLevel := (s.logLevel <|> s.sharedLogLevel).getD "info"
    simulationThreads := (s.simulationThreads.bind readCount?).getD 0 }

/-- Members that name a fork, which is the one given where they name none. -/
def naming (fork : Fork) (members : List (String × Json)) : List (String × Json) :=
  match Json.member? members "fork" with
  | some _ => members
  | none => Json.insertMember members "fork" (.str fork.name)

/-- The rules of the fork with the changes laid over them. Changes that name no fork are made to
name this one, printed, and read again. -/
def rules (c : Config) : Except ConfigError Rules :=
  match c.rulesText with
  | none => .ok (Rules.ofFork c.fork)
  | some text =>
      match Json.parse? text with
      | none => .error .malformedRules
      | some (.obj members) => Rules.ofText (Json.print (.obj (naming c.fork members)))
      | some _ => .error .overlayNotObject

end Config
end EvmEngine
