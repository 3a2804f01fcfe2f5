import EvmEngine.Keccak
import Std.Data.ExtTreeMap

/-!
The accounts and their storage. A slot that holds zero is not stored, so two worlds are equal as
soon as every account and every slot reads the same in both.
-/

namespace EvmEngine

structure Account where
  balance : Word
  nonce : UInt64
  code : ByteArray
  /-- The Keccak-256 digest of the code. -/
  codeHash : Hash
  deriving DecidableEq

namespace Account

/-- An account with nothing in it. -/
def blank : Account := ⟨0, 0, ByteArray.empty, emptyCodeHash⟩

def withCode (a : Account) (code : ByteArray) : Account :=
  { a with code, codeHash := if code.isEmpty then emptyCodeHash else keccak256 code }

/-- Empty accounts have no balance, no nonce and no code; their storage does not matter. -/
def isEmpty (a : Account) : Bool :=
  a.nonce == 0 && a.balance == 0 && a.code.isEmpty

end Account

/-- A place in the storage of an account. -/
abbrev Slot := Address × Word

namespace Slot

/-- By account first, then by place. -/
def order : Slot → Slot → Ordering :=
  compareLex (compareOn Prod.fst) (compareOn Prod.snd)

instance : Std.TransCmp order := inferInstanceAs (Std.TransCmp (compareLex _ _))

instance : Std.LawfulEqCmp order where
  eq_of_compare {a b} h := by
    simp only [order, compareLex, Ordering.then_eq_eq, compareOn, Std.LawfulEqOrd.compare_eq_iff_eq] at h
    exact Prod.ext h.1 h.2

end Slot

structure World where
  accounts : Std.ExtTreeMap Address Account
  storage : Std.ExtTreeMap Slot Word Slot.order

namespace World

def empty : World := ⟨∅, ∅⟩

def account? (w : World) (a : Address) : Option Account :=
  w.accounts[a]?

def slot? (w : World) (s : Slot) : Option Word :=
  w.storage[s]?

/-- Puts an account in place of what was there, or removes it. -/
def setAccount (w : World) (a : Address) : Option Account → World
  | some account => { w with accounts := w.accounts.insert a account }
  | none => { w with accounts := w.accounts.erase a }

def setSlot (w : World) (s : Slot) : Option Word → World
  | some value => { w with storage := w.storage.insert s value }
  | none => { w with storage := w.storage.erase s }

/-- How a value is stored: zero not at all. -/
def stored (value : Word) : Option Word :=
  if value = 0 then none else some value

/-- Changes an account, starting from a blank one where there is none. -/
def modifyAccount (w : World) (a : Address) (f : Account → Account) : World :=
  w.setAccount a (some (f ((w.account? a).getD .blank)))

def setBalance (w : World) (a : Address) (balance : Word) : World :=
  w.modifyAccount a fun account => { account with balance }

def setNonce (w : World) (a : Address) (nonce : UInt64) : World :=
  w.modifyAccount a fun account => { account with nonce }

def setCode (w : World) (a : Address) (code : ByteArray) : World :=
  w.modifyAccount a (·.withCode code)

/-- Fills a slot of an account, which comes into being if it was not there. -/
def setStorage (w : World) (a : Address) (key value : Word) : World :=
  (w.modifyAccount a id).setSlot (a, key) (stored value)

/-- The places of an account that hold something, in ascending order. -/
def slotsOf (w : World) (a : Address) : List Slot :=
  w.storage.keys.filter (·.1 == a)

end World
end EvmEngine
