import EvmEngine.Fault
import EvmEngine.World

/-!
The account store with nested checkpoints. While a checkpoint is open every change first notes what
it replaces; rolling back puts those notes back, the latest first, and committing hands them to the
checkpoint outside. The value a slot had when the outermost checkpoint was opened can be asked for
until that one is closed.
-/

namespace EvmEngine

/-- What one change replaced. -/
inductive Undo
  | account (address : Address) (previous : Option Account)
  | slot (place : Slot) (previous : Option Word)

structure Ledger where
  world : World
  /-- The notes of each open checkpoint, the innermost checkpoint and the latest note first. -/
  checkpoints : List (List Undo)
  /-- The first value replaced in each slot since the outermost checkpoint was opened. -/
  initial : Std.ExtTreeMap Slot Word Slot.order

namespace Undo

/-- Puts back what a change replaced. -/
def apply (w : World) : Undo → World
  | account address previous => w.setAccount address previous
  | slot place previous => w.setSlot place previous

end Undo

namespace Ledger

def empty : Ledger := ⟨World.empty, [], ∅⟩

/-- A store with the given contents and no open checkpoint. -/
def ofWorld (world : World) : Ledger := ⟨world, [], ∅⟩

def depth (l : Ledger) : Nat :=
  l.checkpoints.length

/-- Adds a note to the innermost checkpoint, if one is open. -/
def note (l : Ledger) (u : Undo) : Ledger :=
  match l.checkpoints with
  | [] => l
  | top :: rest => { l with checkpoints := (u :: top) :: rest }

def putAccount (l : Ledger) (a : Address) (account : Option Account) : Ledger :=
  let l := l.note (.account a (l.world.account? a))
  { l with world := l.world.setAccount a account }

/-- Changes an account, starting from a blank one where there is none. -/
def modifyAccount (l : Ledger) (a : Address) (f : Account → Account) : Ledger :=
  l.putAccount a (some (f ((l.world.account? a).getD .blank)))

/-- Remembers the present value of a slot as its initial one, unless one is remembered. -/
def remember (l : Ledger) (place : Slot) : Ledger :=
  if l.checkpoints.isEmpty then l
  else { l with initial := l.initial.insertIfNew place ((l.world.slot? place).getD 0) }

def putSlot (l : Ledger) (place : Slot) (value : Word) : Ledger :=
  let l := (l.remember place).note (.slot place (l.world.slot? place))
  { l with world := l.world.setSlot place (World.stored value) }

def clearStorage (l : Ledger) (a : Address) : Ledger :=
  (l.world.slotsOf a).foldl (·.putSlot · 0) l

def hasAccount (l : Ledger) (a : Address) : Bool :=
  (l.world.account? a).isSome

def isEmpty (l : Ledger) (a : Address) : Bool :=
  (l.world.account? a).all Account.isEmpty

def balance (l : Ledger) (a : Address) : Word :=
  (l.world.account? a).elim 0 Account.balance

def nonce (l : Ledger) (a : Address) : UInt64 :=
  (l.world.account? a).elim 0 Account.nonce

def code (l : Ledger) (a : Address) : ByteArray :=
  (l.world.account? a).elim ByteArray.empty Account.code

def codeHash (l : Ledger) (a : Address) : Hash :=
  (l.world.account? a).elim 0 Account.codeHash

def load (l : Ledger) (a : Address) (key : Word) : Word :=
  (l.world.slot? (a, key)).getD 0

/-- The value when the outermost checkpoint was opened, or the present one where none is open. -/
def initialValue (l : Ledger) (a : Address) (key : Word) : Word :=
  match l.initial[(a, key)]? with
  | some value => value
  | none => l.load a key

def credit (l : Ledger) (a : Address) (amount : Word) : Except StateError Ledger :=
  let balance := l.balance a
  if BitVec.uaddOverflow balance amount then .error (.balanceOverflow a)
  else .ok (l.modifyAccount a fun account => { account with balance := balance + amount })

def debit (l : Ledger) (a : Address) (amount : Word) : Except StateError Ledger :=
  let balance := l.balance a
  if balance < amount then .error (.insufficientBalance a)
  else .ok (l.modifyAccount a fun account => { account with balance := balance - amount })

/-- Raises the nonce, which starts again at zero after the largest machine integer. -/
def bumpNonce (l : Ledger) (a : Address) : Ledger :=
  l.modifyAccount a fun account => { account with nonce := account.nonce + 1 }

def saveCode (l : Ledger) (a : Address) (code : ByteArray) : Except StateError Ledger :=
  if l.hasAccount a then .ok (l.modifyAccount a (·.withCode code)) else .error (.notFound a)

def store (l : Ledger) (a : Address) (key value : Word) : Ledger :=
  l.putSlot (a, key) value

/-- Makes a fresh account that keeps only the balance of what was there. -/
def createAccount (l : Ledger) (a : Address) : Ledger :=
  let balance := l.balance a
  (l.clearStorage a).putAccount a (some { Account.blank with balance })

def delete (l : Ledger) (a : Address) : Ledger :=
  (l.clearStorage a).putAccount a none

/-- Opens a checkpoint. -/
def checkpoint (l : Ledger) : Ledger :=
  { l with checkpoints := [] :: l.checkpoints }

/-- Closes the innermost checkpoint and keeps what was done since. -/
def commit (l : Ledger) : Except StateError Ledger :=
  match l.checkpoints with
  | [] => .error .noCheckpoint
  | [_] => .ok { l with checkpoints := [], initial := ∅ }
  | top :: next :: rest => .ok { l with checkpoints := (top ++ next) :: rest }

/-- Closes the innermost checkpoint and undoes what was done since. -/
def rollback (l : Ledger) : Except StateError Ledger :=
  match l.checkpoints with
  | [] => .error .noCheckpoint
  | top :: rest =>
      .ok { world := top.foldl Undo.apply l.world
            checkpoints := rest
            initial := if rest.isEmpty then ∅ else l.initial }

end Ledger
end EvmEngine
