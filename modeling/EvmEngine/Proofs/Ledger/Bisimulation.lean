import EvmEngine.Proofs.Ledger.Initial
import EvmEngine.Rules

/-!
Two ledgers side by side. A relation between ledgers that agree in all that can be read, and that the
few things done to ledgers keep, is kept by everything else, as it is made up of these. One such
relation holds between ledgers with the same contents that lie in different checkpoints, as long as
the slots had the same values when the outermost of these were opened.
-/

namespace EvmEngine
namespace Ledger

/-- A relation between ledgers that have both opened so many checkpoints more. Related ledgers have
the same contents and, where the rules look at them, the same initial values of slots. -/
structure Bisimulation (rules : Rules) (R : Nat → Ledger → Ledger → Prop) : Prop where
  world {n : Nat} {l l' : Ledger} (h : R n l l') : l'.world = l.world
  initialValue {n : Nat} {l l' : Ledger} (h : R n l l') (net : rules.sstoreMetering ≠ .legacy)
    (a : Address) (key : Word) : l'.initialValue a key = l.initialValue a key
  putAccount {n : Nat} {l l' : Ledger} (h : R n l l') (a : Address) (account : Option Account) :
    R n (l.putAccount a account) (l'.putAccount a account)
  putSlot {n : Nat} {l l' : Ledger} (h : R n l l') (place : Slot) (value : Word) :
    R n (l.putSlot place value) (l'.putSlot place value)
  checkpoint {n : Nat} {l l' : Ledger} (h : R n l l') : R (n + 1) l.checkpoint l'.checkpoint
  commit {n : Nat} {l l' : Ledger} (h : R (n + 1) l l') :
    ∃ k k', l.commit = .ok k ∧ l'.commit = .ok k' ∧ R n k k'
  rollback {n : Nat} {l l' : Ledger} (h : R (n + 1) l l') :
    ∃ k k', l.rollback = .ok k ∧ l'.rollback = .ok k' ∧ R n k k'

/-- A change that is made to both ledgers, or refused by both for the same reason. -/
inductive Twice (R : Ledger → Ledger → Prop) :
    Except StateError Ledger → Except StateError Ledger → Prop
  | ok {l l' : Ledger} (related : R l l') : Twice R (.ok l) (.ok l')
  | error {cause : StateError} : Twice R (.error cause) (.error cause)

namespace Bisimulation

variable {rules : Rules} {R : Nat → Ledger → Ledger → Prop} {n : Nat} {l l' : Ledger}

theorem balance (bisim : Bisimulation rules R) (h : R n l l') (a : Address) :
    l'.balance a = l.balance a := by
  rw [Ledger.balance, bisim.world h]
  rfl

theorem nonce (bisim : Bisimulation rules R) (h : R n l l') (a : Address) :
    l'.nonce a = l.nonce a := by
  rw [Ledger.nonce, bisim.world h]
  rfl

theorem code (bisim : Bisimulation rules R) (h : R n l l') (a : Address) :
    l'.code a = l.code a := by
  rw [Ledger.code, bisim.world h]
  rfl

theorem codeHash (bisim : Bisimulation rules R) (h : R n l l') (a : Address) :
    l'.codeHash a = l.codeHash a := by
  rw [Ledger.codeHash, bisim.world h]
  rfl

theorem hasAccount (bisim : Bisimulation rules R) (h : R n l l') (a : Address) :
    l'.hasAccount a = l.hasAccount a := by
  rw [Ledger.hasAccount, bisim.world h]
  rfl

theorem isEmpty (bisim : Bisimulation rules R) (h : R n l l') (a : Address) :
    l'.isEmpty a = l.isEmpty a := by
  rw [Ledger.isEmpty, bisim.world h]
  rfl

theorem load (bisim : Bisimulation rules R) (h : R n l l') (a : Address) (key : Word) :
    l'.load a key = l.load a key := by
  rw [Ledger.load, bisim.world h]
  rfl

theorem modifyAccount (bisim : Bisimulation rules R) (h : R n l l') (a : Address)
    (f : Account → Account) : R n (l.modifyAccount a f) (l'.modifyAccount a f) := by
  rw [Ledger.modifyAccount, Ledger.modifyAccount, bisim.world h]
  exact bisim.putAccount h a _

theorem credit (bisim : Bisimulation rules R) (h : R n l l') (a : Address) (amount : Word) :
    Twice (R n) (l.credit a amount) (l'.credit a amount) := by
  simp only [Ledger.credit, bisim.balance h]
  split
  · exact .error
  · exact .ok (bisim.modifyAccount h a _)

theorem debit (bisim : Bisimulation rules R) (h : R n l l') (a : Address) (amount : Word) :
    Twice (R n) (l.debit a amount) (l'.debit a amount) := by
  simp only [Ledger.debit, bisim.balance h]
  split
  · exact .error
  · exact .ok (bisim.modifyAccount h a _)

theorem saveCode (bisim : Bisimulation rules R) (h : R n l l') (a : Address) (code : ByteArray) :
    Twice (R n) (l.saveCode a code) (l'.saveCode a code) := by
  simp only [Ledger.saveCode, bisim.hasAccount h]
  split
  · exact .ok (bisim.modifyAccount h a _)
  · exact .error

theorem clearStorage (bisim : Bisimulation rules R) (h : R n l l') (a : Address) :
    R n (l.clearStorage a) (l'.clearStorage a) := by
  rw [Ledger.clearStorage, Ledger.clearStorage, bisim.world h]
  generalize l.world.slotsOf a = places
  induction places generalizing l l' with
  | nil => exact h
  | cons place places ih => exact ih (bisim.putSlot h place 0)

theorem createAccount (bisim : Bisimulation rules R) (h : R n l l') (a : Address) :
    R n (l.createAccount a) (l'.createAccount a) := by
  rw [Ledger.createAccount, Ledger.createAccount, bisim.balance h]
  exact bisim.putAccount (bisim.clearStorage h a) a _

theorem delete (bisim : Bisimulation rules R) (h : R n l l') (a : Address) :
    R n (l.delete a) (l'.delete a) :=
  bisim.putAccount (bisim.clearStorage h a) a none

theorem deleteAll (bisim : Bisimulation rules R) (h : R n l l') (accounts : List Address) :
    R n (accounts.foldl Ledger.delete l) (accounts.foldl Ledger.delete l') := by
  induction accounts generalizing l l' with
  | nil => exact h
  | cons a accounts ih => exact ih (bisim.delete h a)

end Bisimulation

/-- The value of a slot in the outermost of several worlds that checkpoints go back to. -/
def outermostValue (start : World) (base : List World) (place : Slot) : Word :=
  (((start :: base).getLast?.getD start).slot? place).getD 0

/-- A ledger with the world and the checkpoints given, which remembers what it should. -/
structure Restored (start : World) (base : List World) (l : Ledger) : Prop where
  world : l.world = start
  saved : l.saved = base
  remembers : l.Remembers

/-- Ledgers with the same contents that have opened so many checkpoints, at the same worlds, since
both opened one at the world given, each above checkpoints of its own. -/
structure Alike (start : World) (base base' : List World) (n : Nat) (l l' : Ledger) : Prop where
  world : l'.world = l.world
  remembers : l.Remembers
  remembers' : l'.Remembers
  saved : ∃ inner, inner.length = n ∧ l.saved = inner ++ start :: base ∧
    l'.saved = inner ++ start :: base'

theorem Remembers.initialValue_of_saved {l : Ledger} {start : World} {inner base : List World}
    (h : l.Remembers) (saved : l.saved = inner ++ start :: base) (a : Address) (key : Word) :
    l.initialValue a key = outermostValue start base (a, key) := by
  have last : (inner ++ start :: base).getLast? = (start :: base).getLast? := by
    simp [List.getLast?_append, List.getLast?_cons]
  rw [h.initialValue_eq, oldest, saved, last, outermostValue, List.getLast?_cons]
  rfl

/-- The outermost world to go back to, once a ledger opens one more checkpoint, is where the initial
values are found. -/
theorem Remembers.outermostValue_eq {l : Ledger} (h : l.Remembers) (place : Slot) :
    outermostValue l.world l.saved place = l.initialValue place.1 place.2 := by
  rw [h.initialValue_eq, outermostValue, oldest, List.getLast?_cons]
  rfl

namespace Alike

variable {start : World} {base base' : List World} {n : Nat} {l l' : Ledger}

theorem checkpoint (h : Alike start base base' n l l') :
    Alike start base base' (n + 1) l.checkpoint l'.checkpoint := by
  obtain ⟨inner, count, saved, saved'⟩ := h.saved
  refine ⟨h.world, h.remembers.checkpoint, h.remembers'.checkpoint, l.world :: inner,
    congrArg Nat.succ count, ?_, ?_⟩
  · rw [saved_checkpoint, saved, List.cons_append]
  · rw [saved_checkpoint, saved', h.world, List.cons_append]

/-- The innermost checkpoints of both go back to the same world. -/
theorem innermost (h : Alike start base base' (n + 1) l l') :
    ∃ w inner, inner.length = n ∧ l.saved = w :: (inner ++ start :: base) ∧
      l'.saved = w :: (inner ++ start :: base') := by
  obtain ⟨inner, count, saved, saved'⟩ := h.saved
  cases inner with
  | nil => cases count
  | cons w inner => exact ⟨w, inner, Nat.succ.inj count, saved, saved'⟩

theorem commit (h : Alike start base base' (n + 1) l l') :
    ∃ k k', l.commit = .ok k ∧ l'.commit = .ok k' ∧ Alike start base base' n k k' := by
  obtain ⟨w, inner, count, saved, saved'⟩ := h.innermost
  obtain ⟨k, done, world, kept, initial⟩ := commit_of_saved saved
  obtain ⟨k', done', world', kept', initial'⟩ := commit_of_saved saved'
  exact ⟨k, k', done, done', world'.trans (h.world.trans world.symm),
    h.remembers.close saved kept (.inl world) initial,
    h.remembers'.close saved' kept' (.inl world') initial', inner, count, kept, kept'⟩

theorem rollback (h : Alike start base base' (n + 1) l l') :
    ∃ k k', l.rollback = .ok k ∧ l'.rollback = .ok k' ∧ Alike start base base' n k k' := by
  obtain ⟨w, inner, count, saved, saved'⟩ := h.innermost
  obtain ⟨k, done, world, kept, initial⟩ := rollback_of_saved saved
  obtain ⟨k', done', world', kept', initial'⟩ := rollback_of_saved saved'
  exact ⟨k, k', done, done', world'.trans world.symm,
    h.remembers.close saved kept (.inr world) initial,
    h.remembers'.close saved' kept' (.inr world') initial', inner, count, kept, kept'⟩

/-- Ledgers with the same contents that each open a checkpoint of their own. -/
theorem opened (world : l'.world = l.world) (remembers : l.Remembers)
    (remembers' : l'.Remembers) :
    Alike l.world l.saved l'.saved 0 l.checkpoint l'.checkpoint := by
  refine ⟨world, remembers.checkpoint, remembers'.checkpoint, [], rfl, saved_checkpoint l, ?_⟩
  rw [saved_checkpoint, world]
  rfl

theorem closes_commit (h : Alike start base base' 0 l l') :
    ∃ k k', l.commit = .ok k ∧ l'.commit = .ok k' ∧ k'.world = k.world := by
  obtain ⟨inner, count, saved, saved'⟩ := h.saved
  obtain rfl := List.length_eq_zero_iff.mp count
  obtain ⟨k, done, world, -⟩ := commit_of_saved saved
  obtain ⟨k', done', world', -⟩ := commit_of_saved saved'
  exact ⟨k, k', done, done', world'.trans (h.world.trans world.symm)⟩

theorem rolls_back (h : Alike start base base' 0 l l') :
    ∃ k k', l.rollback = .ok k ∧ l'.rollback = .ok k' ∧ k.Restored start base ∧
      k'.Restored start base' := by
  obtain ⟨inner, count, saved, saved'⟩ := h.saved
  obtain rfl := List.length_eq_zero_iff.mp count
  obtain ⟨k, done, world, kept, initial⟩ := rollback_of_saved saved
  obtain ⟨k', done', world', kept', initial'⟩ := rollback_of_saved saved'
  exact ⟨k, k', done, done',
    ⟨world, kept, h.remembers.close saved kept (.inr world) initial⟩,
    ⟨world', kept', h.remembers'.close saved' kept' (.inr world') initial'⟩⟩

theorem closes_rollback (h : Alike start base base' 0 l l') :
    ∃ k k', l.rollback = .ok k ∧ l'.rollback = .ok k' ∧ k'.world = k.world := by
  obtain ⟨k, k', done, done', restored, restored'⟩ := h.rolls_back
  exact ⟨k, k', done, done', restored'.world.trans restored.world.symm⟩

/-- Being alike is kept by whatever is done to both ledgers, if the slots had the same values when
the outermost checkpoints were opened or the rules do not look at these. -/
theorem bisimulation {rules : Rules}
    (same : rules.sstoreMetering ≠ .legacy →
      ∀ place, outermostValue start base' place = outermostValue start base place) :
    Bisimulation rules (Alike start base base') where
  world h := h.world
  initialValue h net a key := by
    obtain ⟨inner, -, saved, saved'⟩ := h.saved
    rw [h.remembers.initialValue_of_saved saved, h.remembers'.initialValue_of_saved saved']
    exact same net (a, key)
  putAccount h a account := by
    refine ⟨?_, h.remembers.putAccount a account, h.remembers'.putAccount a account, ?_⟩
    · rw [world_putAccount, world_putAccount, h.world]
    · rw [saved_putAccount, saved_putAccount]
      exact h.saved
  putSlot h place value := by
    refine ⟨?_, h.remembers.putSlot place value, h.remembers'.putSlot place value, ?_⟩
    · rw [world_putSlot, world_putSlot, h.world]
    · rw [saved_putSlot, saved_putSlot]
      exact h.saved
  checkpoint h := h.checkpoint
  commit h := h.commit
  rollback h := h.rollback

end Alike
end Ledger
end EvmEngine
