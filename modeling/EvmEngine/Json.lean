import EvmEngine.Decimal
import EvmEngine.Hex

/-!
JSON texts and their values. A number is an integer where it is written as one and fits a machine
integer, with or without a sign; every other number is kept only as the fact that it is one. Objects
hold each key once, with the value that was written last.
-/

namespace EvmEngine

inductive Json
  | null
  | bool (b : Bool)
  | int (n : Int)
  /-- A number with a fraction or an exponent, minus zero, or an integer that is too large. -/
  | real
  | str (s : String)
  | arr (items : List Json)
  | obj (members : List (String × Json))

namespace Json

/-- Adds a member to an object, in place of one with the same key. -/
def insertMember (members : List (String × Json)) (key : String) (value : Json) :
    List (String × Json) :=
  members.filter (·.1 != key) ++ [(key, value)]

def member? (members : List (String × Json)) (key : String) : Option Json :=
  (members.find? (·.1 == key)).map (·.2)

/-- How deep arrays and objects may be nested. -/
def maxDepth : Nat := 127

namespace Reader

/-- A reader takes a value off the front of a text and gives the rest. -/
abbrev Rest := List Char

def skipBlank : Rest → Rest
  | [] => []
  | c :: cs => if c == ' ' || c == '\n' || c == '\t' || c == '\r' then skipBlank cs else c :: cs

def expect? (word cs : List Char) : Option Rest :=
  if word.isPrefixOf cs then some (cs.drop word.length) else none

def digitValue (c : Char) : Nat :=
  c.toNat - '0'.toNat

/-- The digits at the front of a text. -/
def digits (cs : Rest) : List Char × Rest :=
  (cs.takeWhile Char.isDigit, cs.dropWhile Char.isDigit)

def natOfDigits (ds : List Char) : Nat :=
  ds.foldl (fun n c => 10 * n + digitValue c) 0

def integer (negative : Bool) (n : Nat) : Json :=
  if negative then (if n = 0 ∨ -(n : Int) < Int64.minValue.toInt then real else int (-n))
  else if n < UInt64.size then int n
  else real

/-- The digits before the point: a zero stands alone. -/
def whole? (cs : Rest) : Option (List Char × Rest) :=
  match digits cs with
  | ([], _) => none
  | ('0' :: _ :: _, _) => none
  | other => some other

/-- The digits after the point, if there is one. -/
def fraction? (cs : Rest) : Option (List Char × Rest) :=
  match cs with
  | '.' :: cs =>
      match digits cs with
      | ([], _) => none
      | other => some other
  | _ => some ([], cs)

/-- The power of ten, if one is written. -/
def exponent? (cs : Rest) : Option (Option Int × Rest) :=
  match cs with
  | c :: cs' =>
      if c == 'e' || c == 'E' then
        let (negative, cs') :=
          match cs' with
          | '+' :: cs' => (false, cs')
          | '-' :: cs' => (true, cs')
          | _ => (false, cs')
        match digits cs' with
        | ([], _) => none
        | (ds, rest) =>
            let n : Int := natOfDigits ds
            some (some (if negative then -n else n), rest)
      else some (none, cs)
  | [] => some (none, [])

/-- A number in the range of doubles. -/
def number? (cs : Rest) : Option (Json × Rest) := do
  let (negative, cs) := match cs with
    | '-' :: cs => (true, cs)
    | _ => (false, cs)
  let (whole, cs) ← whole? cs
  let (fraction, cs) ← fraction? cs
  let (exponent, cs) ← exponent? cs
  let value := Decimal.zero.takeWhole (whole.map digitValue)
  let value := value.takeFraction (fraction.map digitValue)
  if (value.scale (exponent.getD 0)).isFinite then
    if fraction.isEmpty && exponent.isNone then some (integer negative (natOfDigits whole), cs)
    else some (real, cs)
  else none

/-- Four hexadecimal digits. -/
def unit? (cs : Rest) : Option (Nat × Rest) :=
  match cs with
  | a :: b :: c :: d :: rest => do
      let a ← Hex.digitValue? a
      let b ← Hex.digitValue? b
      let c ← Hex.digitValue? c
      let d ← Hex.digitValue? d
      some (((a * 16 + b) * 16 + c) * 16 + d, rest)
  | _ => none

/-- A character by its code, in one unit or in a pair of surrogates. -/
def codePoint? (cs : Rest) : Option (Char × Rest) := do
  let (first, cs) ← unit? cs
  if 0xd800 ≤ first && first < 0xdc00 then
    match cs with
    | '\\' :: 'u' :: cs => do
        let (second, cs) ← unit? cs
        if 0xdc00 ≤ second && second < 0xe000 then
          some (Char.ofNat (0x10000 + (first - 0xd800) * 0x400 + (second - 0xdc00)), cs)
        else none
    | _ => none
  else if 0xdc00 ≤ first && first < 0xe000 then none
  else some (Char.ofNat first, cs)

/-- What follows a backslash. -/
def escape? (cs : Rest) : Option (Char × Rest) :=
  match cs with
  | '"' :: cs => some ('"', cs)
  | '\\' :: cs => some ('\\', cs)
  | '/' :: cs => some ('/', cs)
  | 'b' :: cs => some (Char.ofNat 8, cs)
  | 'f' :: cs => some (Char.ofNat 12, cs)
  | 'n' :: cs => some ('\n', cs)
  | 'r' :: cs => some ('\r', cs)
  | 't' :: cs => some ('\t', cs)
  | 'u' :: cs => codePoint? cs
  | _ => none

/-- The rest of a string after its opening quotation mark; each step takes at least one of at most
`fuel` characters. -/
def string? : Nat → Rest → List Char → Option (String × Rest)
  | 0, _, _ => none
  | fuel + 1, cs, read =>
      match cs with
      | [] => none
      | '"' :: cs => some (String.ofList read.reverse, cs)
      | '\\' :: cs =>
          match escape? cs with
          | none => none
          | some (c, cs) => string? fuel cs (c :: read)
      | c :: cs => if c.toNat < 0x20 then none else string? fuel cs (c :: read)

/-- The rest of an array after its opening bracket and the blanks there, where it is not empty. -/
def items? (item : Rest → Option (Json × Rest)) : Nat → Rest → List Json → Option (Json × Rest)
  | 0, _, _ => none
  | fuel + 1, cs, read =>
      match item cs with
      | none => none
      | some (value, cs) =>
          match skipBlank cs with
          | ',' :: cs => items? item fuel cs (value :: read)
          | ']' :: cs => some (arr (value :: read).reverse, cs)
          | _ => none

/-- The rest of an object after its opening brace and the blanks there, where it is not empty. -/
def members? (item : Rest → Option (Json × Rest)) :
    Nat → Rest → List (String × Json) → Option (Json × Rest)
  | 0, _, _ => none
  | fuel + 1, cs, read =>
      match skipBlank cs with
      | '"' :: cs =>
          match string? cs.length cs [] with
          | none => none
          | some (key, cs) =>
              match skipBlank cs with
              | ':' :: cs =>
                  match item cs with
                  | none => none
                  | some (value, cs) =>
                      match skipBlank cs with
                      | ',' :: cs => members? item fuel cs (insertMember read key value)
                      | '}' :: cs => some (obj (insertMember read key value), cs)
                      | _ => none
              | _ => none
      | _ => none

/-- A value, in which arrays and objects are nested at most so deep. -/
def value? : Nat → Rest → Option (Json × Rest)
  | depth, cs =>
      match skipBlank cs with
      | '"' :: cs => (string? cs.length cs []).map fun (s, cs) => (str s, cs)
      | '[' :: cs =>
          match depth with
          | 0 => none
          | depth + 1 =>
              match skipBlank cs with
              | ']' :: cs => some (arr [], cs)
              | cs => items? (value? depth) cs.length cs []
      | '{' :: cs =>
          match depth with
          | 0 => none
          | depth + 1 =>
              match skipBlank cs with
              | '}' :: cs => some (obj [], cs)
              | cs => members? (value? depth) cs.length cs []
      | 'n' :: cs => (expect? ['u', 'l', 'l'] cs).map fun cs => (null, cs)
      | 't' :: cs => (expect? ['r', 'u', 'e'] cs).map fun cs => (bool true, cs)
      | 'f' :: cs => (expect? ['a', 'l', 's', 'e'] cs).map fun cs => (bool false, cs)
      | cs => number? cs

end Reader

/-- Reads a text that is one value with blanks around it. -/
def parse? (text : String) : Option Json :=
  match Reader.value? maxDepth text.toList with
  | none => none
  | some (value, rest) => if (Reader.skipBlank rest).isEmpty then some value else none

end Json
end EvmEngine
