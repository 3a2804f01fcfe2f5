import EvmEngine.Rules

/-!
The part of the prices that depends on operands or on the state. A price that does not fit 64 bits
is capped at the largest number that does, which no gas limit can pay.
-/

namespace EvmEngine
namespace Gas

/-- The sum, or the largest machine integer where the sum is larger. -/
def satAdd (a b : UInt64) : UInt64 :=
  UInt64.ofNat (min (a.toNat + b.toNat) (UInt64.size - 1))

/-- The product, or the largest machine integer where the product is larger. -/
def satMul (a b : UInt64) : UInt64 :=
  UInt64.ofNat (min (a.toNat * b.toNat) (UInt64.size - 1))

/-- The difference, or zero where it would be negative. -/
def satSub (a b : UInt64) : UInt64 :=
  if a < b then 0 else a - b

/-- A length as a machine integer, capped at the largest one. -/
def ofLength (n : Nat) : UInt64 :=
  UInt64.ofNat (min n (UInt64.size - 1))

/-- The number of 32-byte words that cover `size` bytes. -/
def words (size : Nat) : UInt64 :=
  ofLength ((size + 31) / 32)

def copyCost (gas : GasSchedule) (size : Nat) : UInt64 :=
  satMul gas.copyWord (words size)

def sha3WordCost (gas : GasSchedule) (size : Nat) : UInt64 :=
  satMul gas.sha3Word (words size)

def expCost (gas : GasSchedule) (exponent : Word) : UInt64 :=
  satMul gas.expByte (ofLength exponent.byteLength)

def logDataCost (gas : GasSchedule) (size : Nat) : UInt64 :=
  satMul gas.logData (ofLength size)

def codeDepositCost (gas : GasSchedule) (size : Nat) : UInt64 :=
  satMul gas.codeDepositByte (ofLength size)

/-- The price of a memory of so many words, a linear and a quadratic term. -/
def memoryCost (words wordCost quadDivisor : UInt64) : UInt64 :=
  satAdd (satMul words wordCost) (satMul words words / max quadDivisor 1)

/-- What growing from one size to another costs beyond what is already paid. -/
def memoryExpansionCost (oldWords newWords wordCost quadDivisor : UInt64) : UInt64 :=
  if newWords ≤ oldWords then 0
  else satSub (memoryCost newWords wordCost quadDivisor) (memoryCost oldWords wordCost quadDivisor)

/-- The most a frame may hand to a child: all but one part in `divisor`. -/
def allButOnePart (gas divisor : UInt64) : UInt64 :=
  gas - gas / max divisor 1

/-- The gas a call hands to its child, before any stipend: the request, capped where the rules cap
it and otherwise refused when it is more than there is. -/
def forwarded (rules : Rules) (available : UInt64) (requested : Word) : Except Fault UInt64 :=
  if rules.limitCallGas then
    .ok (min requested.clamp (allButOnePart available rules.gas.callGasDivisor))
  else
    match requested.toUInt64? with
    | none => .error .outOfGas
    | some n => if available < n then .error .outOfGas else .ok n

/-- A price as a change to the refund counter, capped at the largest one. -/
def asRefund (price : UInt64) : Int64 :=
  Int64.ofInt (min price.toNat Int64.maxValue.toInt)

structure SstoreCost where
  gas : UInt64
  refund : Int64
  deriving DecidableEq

/-- The refund for a further write to a slot that the transaction has already changed: a clearing
refund granted earlier is taken back or a new one granted, and a return to the initial value gives
back what the first write cost above a plain one. -/
def dirtySlotRefund (gas : GasSchedule) (initial current new : Word) : Int64 :=
  let clear := asRefund gas.sstoreClearRefund
  let clearing : Int64 :=
    if initial = 0 then 0
    else if current = 0 then 0 - clear
    else if new = 0 then clear
    else 0
  let restoring : Int64 :=
    if initial = new then
      (if initial = 0 then asRefund gas.sstoreSet - asRefund gas.sstoreNoop
       else asRefund gas.sstoreReset - asRefund gas.sstoreNoop)
    else 0
  clearing + restoring

/-- The price of writing `new` over `current`, where the slot held `initial` when the transaction
began. -/
def sstoreCost (rules : Rules) (initial current new : Word) : SstoreCost :=
  let gas := rules.gas
  let clear := asRefund gas.sstoreClearRefund
  match rules.sstoreMetering with
  | .legacy =>
      { gas := if current = 0 ∧ new ≠ 0 then gas.sstoreSet else gas.sstoreReset
        refund := if current ≠ 0 ∧ new = 0 then clear else 0 }
  | .net | .netWithSentry =>
      if current = new then { gas := gas.sstoreNoop, refund := 0 }
      else if initial = current then
        if initial = 0 then { gas := gas.sstoreSet, refund := 0 }
        else { gas := gas.sstoreReset, refund := if new = 0 then clear else 0 }
      else { gas := gas.sstoreNoop, refund := dirtySlotRefund gas initial current new }

/-- The sum of two refunds, held between the least and the largest machine integer. -/
def addRefund (a b : Int64) : Int64 :=
  Int64.ofInt (max Int64.minValue.toInt (min (a.toInt + b.toInt) Int64.maxValue.toInt))

/-- What is paid back of a refund counter: nothing of a negative one, and at most half the gas
used. -/
def cappedRefund (gasUsed : UInt64) (refund : Int64) : UInt64 :=
  min (if refund < 0 then 0 else refund.toUInt64) (gasUsed / 2)

/-- The gas a transaction costs before any code runs. -/
def intrinsic (gas : GasSchedule) (data : ByteArray) (isCreate : Bool) : UInt64 :=
  (if isCreate then gas.txCreate else gas.tx)
    + data.data.foldl (fun sum b => sum + if b = 0 then gas.txDataZero else gas.txDataNonZero) 0

end Gas
end EvmEngine
