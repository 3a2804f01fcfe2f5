import EvmEngine.Fault

/-!
The operand stack of one frame: at most 1024 words, the top one first. An operation that fails
leaves the stack as it was. Counts and depths are machine integers: after the largest comes zero.
-/

namespace EvmEngine

structure Stack where
  words : List Word
  deriving DecidableEq

namespace Stack

def capacity : Nat := 1024

def empty : Stack := ⟨[]⟩

def size (s : Stack) : Nat :=
  s.words.length

/-- Whether an operation that takes `inputs` words and leaves `outputs` has room for both. -/
def require (s : Stack) (inputs outputs : Nat) : Except Fault Unit :=
  if s.size < inputs then .error (.stackTooSmall inputs s.size)
  else if capacity < (s.size - inputs + outputs) % UInt64.size then .error .stackOverflow
  else .ok ()

def push (s : Stack) (w : Word) : Except Fault Stack :=
  if capacity ≤ s.size then .error .stackOverflow else .ok ⟨w :: s.words⟩

def pop (s : Stack) : Except Fault (Word × Stack) :=
  match s.words with
  | [] => .error (.stackTooSmall 1 0)
  | w :: rest => .ok (w, ⟨rest⟩)

def pop2 (s : Stack) : Except Fault ((Word × Word) × Stack) :=
  match s.words with
  | a :: b :: rest => .ok ((a, b), ⟨rest⟩)
  | _ => .error (.stackTooSmall 2 s.size)

def pop3 (s : Stack) : Except Fault ((Word × Word × Word) × Stack) :=
  match s.words with
  | a :: b :: c :: rest => .ok ((a, b, c), ⟨rest⟩)
  | _ => .error (.stackTooSmall 3 s.size)

def pop4 (s : Stack) : Except Fault ((Word × Word × Word × Word) × Stack) :=
  match s.words with
  | a :: b :: c :: d :: rest => .ok ((a, b, c, d), ⟨rest⟩)
  | _ => .error (.stackTooSmall 4 s.size)

/-- Takes the top `n` words, top first, or none at all. -/
def popN (s : Stack) (n : Nat) : Except Fault (List Word × Stack) :=
  if s.size < n then .error (.stackTooSmall n s.size)
  else .ok (s.words.take n, ⟨s.words.drop n⟩)

/-- What is wrong where an operation needs the word `depth` places below the top and cannot have
it. -/
def tooSmallFor (s : Stack) (depth : Nat) : Fault :=
  .stackTooSmall ((depth + 1) % UInt64.size) s.size

/-- The word `depth` places below the top. -/
def peek (s : Stack) (depth : Nat) : Except Fault Word :=
  match s.words[depth]? with
  | none => .error (s.tooSmallFor depth)
  | some w => .ok w

/-- Exchanges the top word with the one `n` places below it, `n` at least 1. -/
def swap (s : Stack) (n : Nat) : Except Fault Stack :=
  match s.words, n with
  | top :: rest, n + 1 =>
      match rest[n]? with
      | some w => .ok ⟨w :: rest.set n top⟩
      | none => .error (s.tooSmallFor (n + 1))
  | _, _ => .error (s.tooSmallFor n)

/-- Pushes another copy of the `n`-th word from the top, `n` at least 1. -/
def dup (s : Stack) (n : Nat) : Except Fault Stack :=
  match n with
  | 0 => .error (.stackTooSmall 0 s.size)
  | k + 1 =>
      match s.words[k]? with
      | none => .error (.stackTooSmall n s.size)
      | some w => s.push w

end Stack
end EvmEngine
