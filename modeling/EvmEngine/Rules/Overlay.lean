import EvmEngine.Json.Merge
import EvmEngine.Json.Record
import EvmEngine.Rules

/-!
Rules as JSON values. What is said of rules is laid over the rules of the upgrade it names, the
newest if it names none, and rules are read from the whole. A field that the whole does not have is
the newest upgrade's.
-/

namespace EvmEngine

open Json

namespace GasSchedule

/-- A price with its key. -/
def price (key : String) (get : GasSchedule → UInt64)
    (set : GasSchedule → UInt64 → GasSchedule) : Record.Field GasSchedule where
  key
  replace? gas value := (uint64? value).map (set gas)
  write gas := .int (get gas).toNat

def fields : List (Record.Field GasSchedule) :=
  [price "balance" balance fun g x => { g with balance := x },
    price "ext_code" extCode fun g x => { g with extCode := x },
    price "ext_code_hash" extCodeHash fun g x => { g with extCodeHash := x },
    price "sload" sload fun g x => { g with sload := x },
    price "call" call fun g x => { g with call := x },
    price "call_value" callValue fun g x => { g with callValue := x },
    price "call_new_account" callNewAccount fun g x => { g with callNewAccount := x },
    price "call_stipend" callStipend fun g x => { g with callStipend := x },
    price "call_gas_divisor" callGasDivisor fun g x => { g with callGasDivisor := x },
    price "selfdestruct" selfDestruct fun g x => { g with selfDestruct := x },
    price "selfdestruct_new_account" selfDestructNewAccount fun g x =>
      { g with selfDestructNewAccount := x },
    price "selfdestruct_refund" selfDestructRefund fun g x => { g with selfDestructRefund := x },
    price "exp_byte" expByte fun g x => { g with expByte := x },
    price "memory_word" memoryWord fun g x => { g with memoryWord := x },
    price "memory_quad_divisor" memoryQuadDivisor fun g x => { g with memoryQuadDivisor := x },
    price "copy_word" copyWord fun g x => { g with copyWord := x },
    price "sha3" sha3 fun g x => { g with sha3 := x },
    price "sha3_word" sha3Word fun g x => { g with sha3Word := x },
    price "log" log fun g x => { g with log := x },
    price "log_topic" logTopic fun g x => { g with logTopic := x },
    price "log_data" logData fun g x => { g with logData := x },
    price "create" create fun g x => { g with create := x },
    price "code_deposit_byte" codeDepositByte fun g x => { g with codeDepositByte := x },
    price "sstore_set" sstoreSet fun g x => { g with sstoreSet := x },
    price "sstore_reset" sstoreReset fun g x => { g with sstoreReset := x },
    price "sstore_clear_refund" sstoreClearRefund fun g x => { g with sstoreClearRefund := x },
    price "sstore_noop" sstoreNoop fun g x => { g with sstoreNoop := x },
    price "sstore_sentry" sstoreSentry fun g x => { g with sstoreSentry := x },
    price "blockhash" blockHash fun g x => { g with blockHash := x },
    price "tx" tx fun g x => { g with tx := x },
    price "tx_create" txCreate fun g x => { g with txCreate := x },
    price "tx_data_zero" txDataZero fun g x => { g with txDataZero := x },
    price "tx_data_non_zero" txDataNonZero fun g x => { g with txDataNonZero := x }]

/-- Reads prices. -/
def ofJson? : Json → Option GasSchedule :=
  Record.read? fields (GasSchedule.ofFork .istanbul)

def toJson (gas : GasSchedule) : Json :=
  .obj (Record.written fields gas)

end GasSchedule

namespace Rules

def fields : List (Record.Field Rules) :=
  [{ key := "fork"
     replace? := fun r v => (choice? Fork.ofName? v).map fun x => { r with fork := x }
     write := fun r => .str r.fork.name },
    { key := "gas"
      replace? := fun r v => (GasSchedule.ofJson? v).map fun x => { r with gas := x }
      write := fun r => r.gas.toJson },
    { key := "max_call_depth"
      replace? := fun r v => (uint64? v).map fun x => { r with maxCallDepth := x }
      write := fun r => .int r.maxCallDepth.toNat },
    { key := "limit_call_gas"
      replace? := fun r v => (bool? v).map fun x => { r with limitCallGas := x }
      write := fun r => .bool r.limitCallGas },
    { key := "max_code_size"
      replace? := fun r v =>
        match v with
        | .null => some { r with maxCodeSize := none }
        | v => (uint64? v).map fun x => { r with maxCodeSize := some x }
      write := fun r => r.maxCodeSize.elim .null fun x => .int x.toNat },
    { key := "create_nonce"
      replace? := fun r v => (uint64? v).map fun x => { r with createNonce := x }
      write := fun r => .int r.createNonce.toNat },
    { key := "empty_account_semantics"
      replace? := fun r v => (bool? v).map fun x => { r with emptyAccountSemantics := x }
      write := fun r => .bool r.emptyAccountSemantics },
    { key := "fail_create_on_deposit_oog"
      replace? := fun r v => (bool? v).map fun x => { r with failCreateOnDepositOog := x }
      write := fun r => .bool r.failCreateOnDepositOog },
    { key := "sstore_metering"
      replace? := fun r v =>
        (choice? SstoreMetering.ofName? v).map fun x => { r with sstoreMetering := x }
      write := fun r => .str r.sstoreMetering.name },
    { key := "precompile_count"
      replace? := fun r v => (uint8? v).map fun x => { r with precompileCount := x }
      write := fun r => .int r.precompileCount.toNat }]

def toJson (rules : Rules) : Json :=
  .obj (Record.written fields rules)

/-- The upgrade that a value names. -/
def forkOf? : Json → Option Fork
  | .obj members =>
      match Json.member? members "fork" with
      | none => some .istanbul
      | some value => choice? Fork.ofName? value
  | _ => some .istanbul

/-- Reads rules from a value laid over the rules of the upgrade that it names. -/
def ofJson? (value : Json) : Option Rules := do
  let fork ← forkOf? value
  Record.read? fields (Rules.ofFork .istanbul) ((Rules.ofFork fork).toJson.merge value)

/-- Reads rules from a text. -/
def ofText (text : String) : Except ConfigError Rules :=
  match (Json.parse? text).bind ofJson? with
  | some rules => .ok rules
  | none => .error .malformedRules

end Rules
end EvmEngine
