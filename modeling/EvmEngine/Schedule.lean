import EvmEngine.Fork

/-!
Gas prices. A schedule holds every price that changed from one upgrade to another or may be set by
a configuration; the tiers that never changed are constants.
-/

namespace EvmEngine

namespace Tier

def zero : UInt64 := 0
def base : UInt64 := 2
def veryLow : UInt64 := 3
def low : UInt64 := 5
def mid : UInt64 := 8
def high : UInt64 := 10
def exp : UInt64 := 10
def jumpDest : UInt64 := 1

end Tier

structure GasSchedule where
  balance : UInt64
  extCode : UInt64
  extCodeHash : UInt64
  sload : UInt64
  call : UInt64
  callValue : UInt64
  callNewAccount : UInt64
  callStipend : UInt64
  callGasDivisor : UInt64
  selfDestruct : UInt64
  selfDestructNewAccount : UInt64
  selfDestructRefund : UInt64
  expByte : UInt64
  memoryWord : UInt64
  memoryQuadDivisor : UInt64
  copyWord : UInt64
  sha3 : UInt64
  sha3Word : UInt64
  log : UInt64
  logTopic : UInt64
  logData : UInt64
  create : UInt64
  codeDepositByte : UInt64
  sstoreSet : UInt64
  sstoreReset : UInt64
  sstoreClearRefund : UInt64
  sstoreNoop : UInt64
  sstoreSentry : UInt64
  blockHash : UInt64
  tx : UInt64
  txCreate : UInt64
  txDataZero : UInt64
  txDataNonZero : UInt64
  deriving DecidableEq

namespace GasSchedule

/-- The prices of an upgrade. -/
def ofFork (fork : Fork) : GasSchedule :=
  let repriced := decide (Fork.tangerineWhistle ≤ fork)
  let istanbul := decide (Fork.istanbul ≤ fork)
  { balance := if istanbul then 700 else if repriced then 400 else 20
    extCode := if repriced then 700 else 20
    extCodeHash := if istanbul then 700 else 400
    sload := if istanbul then 800 else if repriced then 200 else 50
    call := if repriced then 700 else 40
    callValue := 9000
    callNewAccount := 25000
    callStipend := 2300
    callGasDivisor := 64
    selfDestruct := if repriced then 5000 else 0
    selfDestructNewAccount := if repriced then 25000 else 0
    selfDestructRefund := 24000
    expByte := if Fork.spuriousDragon ≤ fork then 50 else 10
    memoryWord := 3
    memoryQuadDivisor := 512
    copyWord := 3
    sha3 := 30
    sha3Word := 6
    log := 375
    logTopic := 375
    logData := 8
    create := 32000
    codeDepositByte := 200
    sstoreSet := 20000
    sstoreReset := 5000
    sstoreClearRefund := 15000
    sstoreNoop := if istanbul then 800 else 200
    sstoreSentry := 2300
    blockHash := 20
    tx := 21000
    txCreate := if Fork.homestead ≤ fork then 53000 else 21000
    txDataZero := 4
    txDataNonZero := if istanbul then 16 else 68 }

end GasSchedule
end EvmEngine
