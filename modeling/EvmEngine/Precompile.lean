import EvmEngine.Precompile.ModExp
import EvmEngine.Pricing
import EvmEngine.Ripemd160
import EvmEngine.Secp256k1
import EvmEngine.Sha256

/-!
The contracts at the reserved addresses from 1 on, which the engine computes itself. Each charges
its price first; only a price above the gas it is given makes one fail.
-/

namespace EvmEngine

inductive PrecompileError
  | outOfGas
  deriving DecidableEq

namespace PrecompileError

def message : PrecompileError → String
  | outOfGas => "precompile out of gas"

end PrecompileError

structure PrecompileOutput where
  gasUsed : UInt64
  output : ByteArray
  deriving DecidableEq

inductive Precompile
  | ecRecover
  | sha256
  | ripemd160
  | identity
  | modExp
  deriving DecidableEq

namespace Precompile

/-- The contracts in the order of their addresses. -/
def all : List Precompile :=
  [ecRecover, sha256, ripemd160, identity, modExp]

def address : Precompile → Address
  | ecRecover => 1
  | sha256 => 2
  | ripemd160 => 3
  | identity => 4
  | modExp => 5

/-- A base price and a price for each word of the input. -/
def linearCost (length : Nat) (base perWord : UInt64) : UInt64 :=
  Gas.satAdd base (Gas.satMul perWord (Gas.words length))

def charge (cost limit : UInt64) : Except PrecompileError UInt64 :=
  if limit < cost then .error .outOfGas else .ok cost

def price (input : ByteArray) : Precompile → UInt64
  | ecRecover => 3000
  | sha256 => linearCost input.size 60 12
  | ripemd160 => linearCost input.size 600 120
  | identity => linearCost input.size 15 3
  | modExp => ModExp.price input

/-- Reads digest, recovery number, r and s, one word each. The recovery number is 27 or 28 as a
whole word. -/
def recoverSigner? (input : ByteArray) : Option Address :=
  let word := fun i => Word.ofBytes (Bytes.window input (32 * i) 32)
  let v := word 1
  if v = 27 ∨ v = 28 then
    Secp256k1.recover? (word 0) (word 2) (word 3) (UInt8.ofNat v.toNat)
  else none

/-- A signature that does not recover gives an empty output and not a failure. -/
def output? (input : ByteArray) : Precompile → Option ByteArray
  | ecRecover =>
      some (match recoverSigner? input with
        | some signer => Word.toBytes signer.toWord
        | none => ByteArray.empty)
  | sha256 => some (Word.toBytes (EvmEngine.sha256 input))
  | ripemd160 => some (Bytes.zeros 12 ++ EvmEngine.ripemd160 input)
  | identity => some input
  | modExp => ModExp.output? input

def run (p : Precompile) (input : ByteArray) (gasLimit : UInt64) :
    Except PrecompileError PrecompileOutput := do
  let gasUsed ← charge (p.price input) gasLimit
  match p.output? input with
  | some output => return { gasUsed, output }
  | none => throw .outOfGas

end Precompile

namespace Rules

/-- The contracts that are active, from address 1 up to the count the rules give. -/
def precompiles (rules : Rules) : List Precompile :=
  Precompile.all.take rules.precompileCount.toNat

def precompileAt? (rules : Rules) (address : Address) : Option Precompile :=
  rules.precompiles.find? (·.address == address)

end Rules
end EvmEngine
