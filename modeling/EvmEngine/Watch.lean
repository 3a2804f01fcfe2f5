import EvmEngine.Opcode

/-!
What can be seen of a run from outside while it goes on, and the one way to stop it: the
instructions dispatched so far, and a flag that, once set, ends every frame at its next instruction.
-/

namespace EvmEngine

/-- An instruction as it is dispatched, before its stack is checked and its price paid. -/
structure Event where
  depth : UInt64
  pc : Nat
  opcode : Opcode
  gas : UInt64
  stackSize : Nat
  deriving DecidableEq

structure Watch where
  /-- Stays set until it is reset from outside. -/
  interrupted : Bool
  /-- Sets the flag when this many instructions have been dispatched. -/
  interruptAfter : Option Nat
  dispatched : Nat
  /-- The first instructions dispatched, up to `eventLimit` of them. -/
  events : Array Event
  deriving DecidableEq

namespace Watch

def eventLimit : Nat := 300

/-- Nothing seen yet, and the flag as given. -/
def start (interrupted : Bool) (interruptAfter : Option Nat) : Watch :=
  ⟨interrupted, interruptAfter, 0, #[]⟩

def dispatch (w : Watch) (event : Event) : Watch where
  interrupted := w.interrupted || w.interruptAfter.any (· ≤ w.dispatched + 1)
  interruptAfter := w.interruptAfter
  dispatched := w.dispatched + 1
  events := if w.dispatched < eventLimit then w.events.push event else w.events

end Watch
end EvmEngine
