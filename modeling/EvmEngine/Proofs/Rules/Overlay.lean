import EvmEngine.Config
import EvmEngine.Proofs.Json.Merge
import EvmEngine.Proofs.Json.Parse

/-!
What an overlay changes in the rules of an upgrade: exactly what it names, in the rules and in their
prices. Whatever else the text holds does not count. Rules that are printed are read back.
-/

namespace EvmEngine

open Json

namespace GasSchedule

/-- The prices with their keys. -/
def prices : List (String × (GasSchedule → UInt64)) :=
  [("balance", balance), ("ext_code", extCode), ("ext_code_hash", extCodeHash), ("sload", sload),
    ("call", call), ("call_value", callValue), ("call_new_account", callNewAccount),
    ("call_stipend", callStipend), ("call_gas_divisor", callGasDivisor),
    ("selfdestruct", selfDestruct), ("selfdestruct_new_account", selfDestructNewAccount),
    ("selfdestruct_refund", selfDestructRefund), ("exp_byte", expByte),
    ("memory_word", memoryWord), ("memory_quad_divisor", memoryQuadDivisor),
    ("copy_word", copyWord), ("sha3", sha3), ("sha3_word", sha3Word), ("log", log),
    ("log_topic", logTopic), ("log_data", logData), ("create", create),
    ("code_deposit_byte", codeDepositByte), ("sstore_set", sstoreSet),
    ("sstore_reset", sstoreReset), ("sstore_clear_refund", sstoreClearRefund),
    ("sstore_noop", sstoreNoop), ("sstore_sentry", sstoreSentry), ("blockhash", blockHash),
    ("tx", tx), ("tx_create", txCreate), ("tx_data_zero", txDataZero),
    ("tx_data_non_zero", txDataNonZero)]

theorem tables_fields : Record.Tables fields uint64? prices where
  row := by
    repeat' first | exact trivial | refine ⟨fun _ _ => Option.map_map _ _ _, ?_⟩
  keys := rfl
  apart := by
    intro g g' same
    cases g
    cases g'
    simpa only [prices, List.map_cons, List.map_nil, List.cons.injEq, and_true,
      GasSchedule.mk.injEq] using same

theorem written_fields (gas : GasSchedule) :
    Record.written fields gas = prices.map fun price => (price.1, .int (price.2 gas).toNat) :=
  rfl

/-- What is written of prices has every key once. -/
theorem nodup_written (gas : GasSchedule) : ((Record.written fields gas).map Prod.fst).Nodup := by
  have apart : (prices.map Prod.fst).Nodup := by decide
  rw [written_fields, List.map_map]
  exact apart

theorem printable_toJson (gas : GasSchedule) (depth : Nat) :
    Printable (depth + 1) gas.toJson := by
  refine .obj depth (Record.written fields gas) ?_ gas.nodup_written
  rw [written_fields]
  exact List.forall_mem_map.mpr fun price _ => .nat depth (price.2 gas).toNat_lt_size

theorem member?_written {price : String × (GasSchedule → UInt64)} (listed : price ∈ prices)
    (gas : GasSchedule) :
    member? (Record.written fields gas) price.1 = some (.int (price.2 gas).toNat) := by
  refine member?_of_mem gas.nodup_written ?_
  rw [written_fields]
  exact List.mem_map.mpr ⟨price, listed, rfl⟩

/-- Prices that are read from an overlay over others are those others changed by it. -/
theorem ofJson?_merge {overlay : List (String × Json)} (apart : (overlay.map Prod.fst).Nodup)
    (gas : GasSchedule) :
    ofJson? (gas.toJson.merge (.obj overlay)) = Record.ofMembers? fields gas overlay := by
  refine tables_fields.ofMembers?_mergeMembers apart ?_ _
  exact fun price listed => ⟨_, member?_written listed gas, nofun, uint64?_toNat _⟩

end GasSchedule

namespace Rules

/-- A limit, which null lifts. -/
def limit? : Json → Option (Option UInt64)
  | .null => some none
  | value => (uint64? value).map some

/-- What an object says of prices. -/
def pricesOf (members : List (String × Json)) : List (String × Json) :=
  match member? members "gas" with
  | some (.obj inner) => inner
  | _ => []

/-- If an object says anything of prices, it says it in an object. -/
def Nests (members : List (String × Json)) : Prop :=
  ∀ value, member? members "gas" = some value → ∃ inner, value = .obj inner

/-- Rules that hold whatever an object says of them, and for the rest what the rules of the upgrade
do that it names, which is the default where it names none. -/
structure Overlaid (default : Fork) (members : List (String × Json)) (r : Rules) : Prop where
  fork : Holds (choice? Fork.ofName?) members "fork" default r.fork
  gas : ∀ price ∈ GasSchedule.prices, Holds uint64? (pricesOf members) price.1
    (price.2 (ofFork r.fork).gas) (price.2 r.gas)
  maxCallDepth : Holds uint64? members "max_call_depth" (ofFork r.fork).maxCallDepth r.maxCallDepth
  limitCallGas : Holds bool? members "limit_call_gas" (ofFork r.fork).limitCallGas r.limitCallGas
  maxCodeSize : Holds limit? members "max_code_size" (ofFork r.fork).maxCodeSize r.maxCodeSize
  createNonce : Holds uint64? members "create_nonce" (ofFork r.fork).createNonce r.createNonce
  emptyAccountSemantics : Holds bool? members "empty_account_semantics"
    (ofFork r.fork).emptyAccountSemantics r.emptyAccountSemantics
  failCreateOnDepositOog : Holds bool? members "fail_create_on_deposit_oog"
    (ofFork r.fork).failCreateOnDepositOog r.failCreateOnDepositOog
  sstoreMetering : Holds (choice? SstoreMetering.ofName?) members "sstore_metering"
    (ofFork r.fork).sstoreMetering r.sstoreMetering
  precompileCount : Holds uint8? members "precompile_count" (ofFork r.fork).precompileCount
    r.precompileCount

/-- Whatever an object says of rules is a value that is accepted there. -/
structure Accepted (members : List (String × Json)) : Prop where
  fork : Accepts (choice? Fork.ofName?) members "fork"
  gas : ∀ price ∈ GasSchedule.prices, Accepts uint64? (pricesOf members) price.1
  maxCallDepth : Accepts uint64? members "max_call_depth"
  limitCallGas : Accepts bool? members "limit_call_gas"
  maxCodeSize : Accepts limit? members "max_code_size"
  createNonce : Accepts uint64? members "create_nonce"
  emptyAccountSemantics : Accepts bool? members "empty_account_semantics"
  failCreateOnDepositOog : Accepts bool? members "fail_create_on_deposit_oog"
  sstoreMetering : Accepts (choice? SstoreMetering.ofName?) members "sstore_metering"
  precompileCount : Accepts uint8? members "precompile_count"

variable {default : Fork} {members : List (String × Json)} {r : Rules}

theorem replace_limit (value : Json) (record : Rules) :
    (match value with
      | .null => some { record with maxCodeSize := none }
      | v => (uint64? v).map fun x => { record with maxCodeSize := some x }) =
      (limit? value).map fun x => { record with maxCodeSize := x } := by
  cases value with
  | null => rfl
  | bool | int | real | str | arr | obj =>
      simp only [limit?, Option.map_map]
      rfl

/-- What an object makes of rules field by field, given what it makes of their prices. -/
def changed? (members : List (String × Json)) (base : Rules) (gas? : Option GasSchedule) :
    Option Rules := do
  let fork ← given? (choice? Fork.ofName?) members "fork" base.fork
  let gas ← gas?
  let maxCallDepth ← given? uint64? members "max_call_depth" base.maxCallDepth
  let limitCallGas ← given? bool? members "limit_call_gas" base.limitCallGas
  let maxCodeSize ← given? limit? members "max_code_size" base.maxCodeSize
  let createNonce ← given? uint64? members "create_nonce" base.createNonce
  let emptyAccountSemantics ←
    given? bool? members "empty_account_semantics" base.emptyAccountSemantics
  let failCreateOnDepositOog ←
    given? bool? members "fail_create_on_deposit_oog" base.failCreateOnDepositOog
  let sstoreMetering ←
    given? (choice? SstoreMetering.ofName?) members "sstore_metering" base.sstoreMetering
  let precompileCount ← given? uint8? members "precompile_count" base.precompileCount
  return {
    fork, gas, maxCallDepth, limitCallGas, maxCodeSize, createNonce, emptyAccountSemantics,
    failCreateOnDepositOog, sstoreMetering, precompileCount }

theorem changed?_eq_some {base : Rules} {gas? : Option GasSchedule} :
    changed? members base gas? = some r ↔
      Holds (choice? Fork.ofName?) members "fork" base.fork r.fork ∧ gas? = some r.gas ∧
      Holds uint64? members "max_call_depth" base.maxCallDepth r.maxCallDepth ∧
      Holds bool? members "limit_call_gas" base.limitCallGas r.limitCallGas ∧
      Holds limit? members "max_code_size" base.maxCodeSize r.maxCodeSize ∧
      Holds uint64? members "create_nonce" base.createNonce r.createNonce ∧
      Holds bool? members "empty_account_semantics" base.emptyAccountSemantics
        r.emptyAccountSemantics ∧
      Holds bool? members "fail_create_on_deposit_oog" base.failCreateOnDepositOog
        r.failCreateOnDepositOog ∧
      Holds (choice? SstoreMetering.ofName?) members "sstore_metering" base.sstoreMetering
        r.sstoreMetering ∧
      Holds uint8? members "precompile_count" base.precompileCount r.precompileCount := by
  simp only [changed?, Option.bind_eq_bind, Option.bind_eq_some_iff, given?_eq_some]
  constructor
  · rintro ⟨fork, named, gas, priced, depth, depths, limit, limits, size, sizes, nonce, nonces,
      empty, empties, fail, fails, metering, meterings, count, counts, made⟩
    cases made
    exact ⟨named, priced, depths, limits, sizes, nonces, empties, fails, meterings, counts⟩
  · rintro ⟨named, priced, depths, limits, sizes, nonces, empties, fails, meterings, counts⟩
    exact ⟨_, named, _, priced, _, depths, _, limits, _, sizes, _, nonces, _, empties, _, fails, _,
      meterings, _, counts, rfl⟩

theorem ofMembers?_fields (base : Rules) (members : List (String × Json)) :
    Record.ofMembers? fields base members =
      changed? members base (given? GasSchedule.ofJson? members "gas" base.gas) := by
  unfold changed?
  refine Record.ofMembers?_cons (fun _ => rfl) rfl fun fork => ?_
  refine Record.ofMembers?_cons (fun _ => rfl) rfl fun gas => ?_
  refine Record.ofMembers?_cons (fun _ => rfl) rfl fun maxCallDepth => ?_
  refine Record.ofMembers?_cons (fun _ => rfl) rfl fun limitCallGas => ?_
  refine Record.ofMembers?_cons (fun value => replace_limit value _) rfl fun maxCodeSize => ?_
  refine Record.ofMembers?_cons (fun _ => rfl) rfl fun createNonce => ?_
  refine Record.ofMembers?_cons (fun _ => rfl) rfl fun emptyAccountSemantics => ?_
  refine Record.ofMembers?_cons (fun _ => rfl) rfl fun failCreateOnDepositOog => ?_
  refine Record.ofMembers?_cons (fun _ => rfl) rfl fun sstoreMetering => ?_
  exact Record.ofMembers?_cons (fun _ => rfl) rfl fun precompileCount => rfl

theorem fork_name (fork : Fork) : choice? Fork.ofName? (.str fork.name) = some fork := by
  cases fork <;> rfl

theorem metering_name (metering : SstoreMetering) :
    choice? SstoreMetering.ofName? (.str metering.name) = some metering := by
  cases metering <;> rfl

theorem limit?_write (limit : Option UInt64) :
    limit? (limit.elim .null fun x => .int x.toNat) = some limit := by
  cases limit with
  | none => rfl
  | some x => simp only [Option.elim, limit?, uint64?_toNat, Option.map_some]

/-- An object that is read has each key once, and so has what it says of prices. -/
structure Apart (members : List (String × Json)) : Prop where
  keys : (members.map Prod.fst).Nodup
  prices : ((pricesOf members).map Prod.fst).Nodup

theorem apart_of_printable {depth : Nat} (printable : Printable depth (.obj members)) :
    Apart members := by
  cases printable with
  | obj _ _ each apart =>
      refine ⟨apart, ?_⟩
      unfold pricesOf
      split
      · next inner said =>
          obtain ⟨member, found, same⟩ := Option.map_eq_some_iff.mp said
          have printable := each member (List.mem_of_find?_eq_some found)
          rw [same] at printable
          cases printable with
          | obj _ _ _ apart => exact apart
      · exact List.nodup_nil

/-- Prices are read from what the object says of them, which may be nothing, laid over those that
are written. -/
theorem given?_gas (apart : Apart members) (nests : Nests members) (r : Rules)
    (default : GasSchedule) :
    given? GasSchedule.ofJson? (mergeMembers (Record.written fields r) members) "gas" default =
      Record.ofMembers? GasSchedule.fields r.gas (pricesOf members) := by
  have written : member? (Record.written fields r) "gas" = some r.gas.toJson := rfl
  have prices := apart.prices
  simp only [given?, member?_mergeMembers apart.keys, written, pricesOf] at prices ⊢
  cases said : member? members "gas" with
  | none =>
      have empty : (([] : List (String × Json)).map Prod.fst).Nodup := List.nodup_nil
      exact GasSchedule.ofJson?_merge empty r.gas
  | some value =>
      obtain ⟨inner, rfl⟩ := nests value said
      rw [said] at prices
      exact GasSchedule.ofJson?_merge prices r.gas

/-- Rules that are read from an object laid over others are those others, field by field changed by
it. -/
theorem ofMembers?_mergeMembers (apart : Apart members) (nests : Nests members) (r base : Rules) :
    Record.ofMembers? fields base (mergeMembers (Record.written fields r) members) =
      changed? members r (Record.ofMembers? GasSchedule.fields r.gas (pricesOf members)) := by
  have laid {α : Type} {read? : Json → Option α} {slot : Json} {held : α} (key : String)
      (written : member? (Record.written fields r) key = some slot)
      (leaf : ∀ members, slot ≠ .obj members) (reads : read? slot = some held) (default : α) :
      given? read? (mergeMembers (Record.written fields r) members) key default =
        given? read? members key held :=
    given?_mergeMembers apart.keys written leaf reads default
  have unlimited (members : List (String × Json)) :
      (r.maxCodeSize.elim .null fun x => .int x.toNat) ≠ Json.obj members := by
    cases r.maxCodeSize <;> nofun
  rw [ofMembers?_fields, given?_gas apart nests, changed?, changed?,
    laid "fork" rfl nofun (fork_name r.fork),
    laid "max_call_depth" rfl nofun (uint64?_toNat r.maxCallDepth),
    laid "limit_call_gas" rfl nofun (rfl : bool? (.bool r.limitCallGas) = _),
    laid "max_code_size" rfl unlimited (limit?_write r.maxCodeSize),
    laid "create_nonce" rfl nofun (uint64?_toNat r.createNonce),
    laid "empty_account_semantics" rfl nofun (rfl : bool? (.bool r.emptyAccountSemantics) = _),
    laid "fail_create_on_deposit_oog" rfl nofun (rfl : bool? (.bool r.failCreateOnDepositOog) = _),
    laid "sstore_metering" rfl nofun (metering_name r.sstoreMetering),
    laid "precompile_count" rfl nofun (uint8?_toNat r.precompileCount)]

/-- What an object is read as is what it makes of the upgrade that it names. -/
theorem ofJson?_eq_some (apart : Apart members) (nests : Nests members) :
    ofJson? (.obj members) = some r ↔ Overlaid .istanbul members r := by
  have named : forkOf? (.obj members) = given? (choice? Fork.ofName?) members "fork" .istanbul := by
    cases said : member? members "fork" with
    | none => simp only [forkOf?, given?, said]
    | some value => simp only [forkOf?, given?, said]
  have reads : ofJson? (.obj members) =
      (given? (choice? Fork.ofName?) members "fork" .istanbul).bind fun fork =>
        Record.ofMembers? fields (ofFork .istanbul)
          (mergeMembers (Record.written fields (ofFork fork)) members) := by
    rw [← named]
    rfl
  simp only [reads, ofMembers?_mergeMembers apart nests, Option.bind_eq_some_iff,
    changed?_eq_some, GasSchedule.tables_fields.ofMembers?_eq_some]
  constructor
  · rintro ⟨fork, named, again, gas, rest⟩
    obtain rfl := Option.some.inj ((given?_again named).symm.trans (given?_eq_some.mpr again))
    obtain ⟨depths, limits, sizes, nonces, empties, fails, meterings, counts⟩ := rest
    exact ⟨given?_eq_some.mp named, gas, depths, limits, sizes, nonces, empties, fails, meterings,
      counts⟩
  · intro h
    have named := given?_eq_some.mpr h.fork
    exact ⟨r.fork, named, given?_eq_some.mp (given?_again named), h.gas, h.maxCallDepth,
      h.limitCallGas, h.maxCodeSize, h.createNonce, h.emptyAccountSemantics,
      h.failCreateOnDepositOog, h.sstoreMetering, h.precompileCount⟩

/-- There are such rules just where all that is said is accepted. -/
theorem exists_overlaid : (∃ r, Overlaid default members r) ↔ Accepted members := by
  constructor
  · rintro ⟨r, h⟩
    exact ⟨h.fork.accepts, fun price member => (h.gas price member).accepts, h.maxCallDepth.accepts,
      h.limitCallGas.accepts, h.maxCodeSize.accepts, h.createNonce.accepts,
      h.emptyAccountSemantics.accepts, h.failCreateOnDepositOog.accepts, h.sstoreMetering.accepts,
      h.precompileCount.accepts⟩
  · intro h
    obtain ⟨fork, named⟩ := h.fork.holds default
    obtain ⟨gas, priced⟩ : ∃ gas, Record.ofMembers? GasSchedule.fields (ofFork fork).gas
        (pricesOf members) = some gas :=
      Option.isSome_iff_exists.mp (GasSchedule.tables_fields.isSome_ofMembers?.mpr h.gas)
    obtain ⟨maxCallDepth, depths⟩ := h.maxCallDepth.holds (ofFork fork).maxCallDepth
    obtain ⟨limitCallGas, limits⟩ := h.limitCallGas.holds (ofFork fork).limitCallGas
    obtain ⟨maxCodeSize, sizes⟩ := h.maxCodeSize.holds (ofFork fork).maxCodeSize
    obtain ⟨createNonce, nonces⟩ := h.createNonce.holds (ofFork fork).createNonce
    obtain ⟨emptyAccountSemantics, empties⟩ :=
      h.emptyAccountSemantics.holds (ofFork fork).emptyAccountSemantics
    obtain ⟨failCreateOnDepositOog, fails⟩ :=
      h.failCreateOnDepositOog.holds (ofFork fork).failCreateOnDepositOog
    obtain ⟨sstoreMetering, meterings⟩ := h.sstoreMetering.holds (ofFork fork).sstoreMetering
    obtain ⟨precompileCount, counts⟩ := h.precompileCount.holds (ofFork fork).precompileCount
    exact ⟨⟨fork, gas, maxCallDepth, limitCallGas, maxCodeSize, createNonce, emptyAccountSemantics,
      failCreateOnDepositOog, sstoreMetering, precompileCount⟩, named,
      GasSchedule.tables_fields.ofMembers?_eq_some.mp priced, depths, limits, sizes, nonces,
      empties, fails, meterings, counts⟩

/-- The keys of rules, but for the upgrade and the prices. -/
def keys : List String :=
  ["max_call_depth", "limit_call_gas", "max_code_size", "create_nonce", "empty_account_semantics",
    "fail_create_on_deposit_oog", "sstore_metering", "precompile_count"]

/-- Objects that say the same of rules and of prices, whatever else they say. -/
structure SaysAlike (members members' : List (String × Json)) : Prop where
  fork : member? members "fork" = member? members' "fork"
  named : ∀ key ∈ keys, member? members key = member? members' key
  gas : ∀ price ∈ GasSchedule.prices,
    member? (pricesOf members) price.1 = member? (pricesOf members') price.1

theorem Overlaid.congr {default' : Fork} {members' : List (String × Json)}
    (h : Overlaid default members r)
    (fork : Holds (choice? Fork.ofName?) members' "fork" default' r.fork)
    (named : ∀ key ∈ keys, member? members key = member? members' key)
    (gas : ∀ price ∈ GasSchedule.prices,
      member? (pricesOf members) price.1 = member? (pricesOf members') price.1) :
    Overlaid default' members' r where
  fork := fork
  gas := fun price member => (h.gas price member).congr (gas price member)
  maxCallDepth := h.maxCallDepth.congr (named _ (by simp [keys]))
  limitCallGas := h.limitCallGas.congr (named _ (by simp [keys]))
  maxCodeSize := h.maxCodeSize.congr (named _ (by simp [keys]))
  createNonce := h.createNonce.congr (named _ (by simp [keys]))
  emptyAccountSemantics := h.emptyAccountSemantics.congr (named _ (by simp [keys]))
  failCreateOnDepositOog := h.failCreateOnDepositOog.congr (named _ (by simp [keys]))
  sstoreMetering := h.sstoreMetering.congr (named _ (by simp [keys]))
  precompileCount := h.precompileCount.congr (named _ (by simp [keys]))

theorem SaysAlike.overlaid {members' : List (String × Json)} (same : SaysAlike members members')
    (h : Overlaid default members r) : Overlaid default members' r :=
  h.congr (h.fork.congr same.fork) same.named same.gas

theorem SaysAlike.symm {members' : List (String × Json)} (same : SaysAlike members members') :
    SaysAlike members' members :=
  ⟨same.fork.symm, fun key known => (same.named key known).symm,
    fun price member => (same.gas price member).symm⟩

/-- An answer is the rules that the object makes of its upgrade, or an error where a value is not
accepted. -/
structure Lays (default : Fork) (members : List (String × Json))
    (answer : Except ConfigError Rules) : Prop where
  accepted : Accepted members → ∃ r, answer = .ok r ∧ Overlaid default members r
  refused : ¬ Accepted members → answer = .error .malformedRules

theorem ofText_eq_ok {text : String} (parsed : parse? text = some (.obj members))
    (nests : Nests members) : ofText text = .ok r ↔ Overlaid .istanbul members r := by
  have apart := apart_of_printable (printable_of_parse? parsed)
  rw [← ofJson?_eq_some apart nests]
  simp only [ofText, parsed, Option.bind_some]
  cases ofJson? (.obj members) <;> simp

/-- Where no rules are read, there is only one error. -/
theorem ofText_eq_error {text : String} (other : ∀ r, ofText text ≠ .ok r) :
    ofText text = .error .malformedRules := by
  unfold ofText at other ⊢
  split
  · next r read => exact absurd (by rw [read]) (other r)
  · rfl

theorem lays_ofText {text : String}
    (made : ∀ r, ofText text = .ok r ↔ Overlaid default members r) :
    Lays default members (ofText text) where
  accepted := by
    intro accepted
    obtain ⟨r, h⟩ := exists_overlaid.mpr accepted
    exact ⟨r, (made r).mpr h, h⟩
  refused := by
    intro other
    exact ofText_eq_error fun r read => other (exists_overlaid.mp ⟨r, (made r).mp read⟩)

/-- Texts that are read as the same rules, if at all, are read alike. -/
theorem ofText_congr {text text' : String}
    (same : ∀ r, ofText text' = .ok r ↔ ofText text = .ok r) : ofText text' = ofText text := by
  cases read : ofText text with
  | ok r => exact (same r).mpr read
  | error e =>
      have none (r : Rules) : ofText text ≠ .ok r := by
        rw [read]
        nofun
      rw [← read, ofText_eq_error none]
      exact ofText_eq_error fun r read' => none r ((same r).mp read')

/-- What is written of rules says all of them. -/
theorem overlaid_write (default : Fork) (r : Rules) :
    Overlaid default (Record.written fields r) r where
  fork := .of_said rfl (fork_name r.fork)
  gas := by
    intro price member
    exact .of_said (GasSchedule.member?_written member r.gas) (uint64?_toNat _)
  maxCallDepth := .of_said rfl (uint64?_toNat _)
  limitCallGas := .of_said rfl rfl
  maxCodeSize := .of_said rfl (limit?_write _)
  createNonce := .of_said rfl (uint64?_toNat _)
  emptyAccountSemantics := .of_said rfl rfl
  failCreateOnDepositOog := .of_said rfl rfl
  sstoreMetering := .of_said rfl (metering_name _)
  precompileCount := .of_said rfl (uint8?_toNat _)

theorem nests_write (r : Rules) : Nests (Record.written fields r) := by
  intro value said
  cases said
  exact ⟨_, rfl⟩

theorem printable_limit (limit : Option UInt64) (depth : Nat) :
    Printable depth (limit.elim .null fun x => .int x.toNat) := by
  cases limit with
  | none => exact .null depth
  | some x => exact .nat depth x.toNat_lt_size

theorem printable_toJson (r : Rules) : Printable maxDepth r.toJson := by
  have small : r.precompileCount.toNat < UInt64.size :=
    r.precompileCount.toNat_lt_size.trans (by decide)
  refine .obj 126 _ ?_ (by decide : (fields.map Record.Field.key).Nodup)
  simp only [Record.written, fields, List.map_cons, List.map_nil, List.forall_mem_cons]
  exact ⟨.str _ _, r.gas.printable_toJson _, .nat _ r.maxCallDepth.toNat_lt_size, .bool _ _,
    printable_limit _ _, .nat _ r.createNonce.toNat_lt_size, .bool _ _, .bool _ _, .str _ _,
    .nat _ small, List.forall_mem_nil _⟩

/-- Rules are read back from what is printed of them. -/
theorem ofText_print (r : Rules) : ofText (print r.toJson) = .ok r :=
  (ofText_eq_ok r.printable_toJson.parse?_print (nests_write r)).mpr (overlaid_write .istanbul r)

end Rules

namespace Config

open Rules

variable {fork : Fork} {members : List (String × Json)} {r : Rules}

theorem naming_of_named (named : (member? members "fork").isSome) :
    naming fork members = members := by
  obtain ⟨value, said⟩ := Option.isSome_iff_exists.mp named
  simp only [naming, said]

theorem naming_of_unnamed (unnamed : member? members "fork" = none) :
    naming fork members = insertMember members "fork" (.str fork.name) := by
  simp only [naming, unnamed]

theorem printable_naming {depth : Nat} (printable : Printable (depth + 1) (.obj members)) :
    Printable (depth + 1) (.obj (naming fork members)) := by
  unfold naming
  split
  · exact printable
  · exact printable.insertMember "fork" (.str depth fork.name)

theorem member?_naming {key : String} (other : "fork" ≠ key) :
    member? (naming fork members) key = member? members key := by
  unfold naming
  split
  · rfl
  · rw [member?_insertMember, if_neg other]

/-- Naming an upgrade where none is named is the same as having it for the default. -/
theorem holds_naming {fork' : Fork} :
    Holds (choice? Fork.ofName?) (naming fork members) "fork" .istanbul fork' ↔
      Holds (choice? Fork.ofName?) members "fork" fork fork' := by
  cases said : member? members "fork" with
  | some value =>
      rw [naming_of_named (Option.isSome_of_eq_some said)]
      simp only [Holds, said]
  | none =>
      rw [naming_of_unnamed said]
      simp only [Holds, member?_insertMember, if_pos, said, fork_name, Option.some_inj]
      exact eq_comm

theorem overlaid_naming :
    Overlaid .istanbul (naming fork members) r ↔ Overlaid fork members r := by
  have named (key : String) (known : key ∈ keys) :
      member? (naming fork members) key = member? members key := by
    refine member?_naming ?_
    rintro rfl
    exact absurd known (by decide)
  have prices : pricesOf (naming fork members) = pricesOf members := by
    simp only [pricesOf, member?_naming (by decide : "fork" ≠ "gas")]
  constructor
  · intro h
    exact h.congr (holds_naming.mp h.fork) named fun price _ => by rw [prices]
  · intro h
    exact h.congr (holds_naming.mpr h.fork) (fun key known => (named key known).symm)
      fun price _ => by rw [prices]

/-- The changes of a configuration are read from the text that is printed of them with the upgrade
that they name. -/
theorem rules_eq_ofText {c : Config} {text : String} (given : c.rulesText = some text)
    (parsed : parse? text = some (.obj members)) :
    c.rules = ofText (print (.obj (naming c.fork members))) := by
  simp only [rules, given, parsed]

end Config

/-- An overlay changes what it names, whether it is read as it stands or laid over the upgrade of a
configuration; what is printed of rules names everything. -/
theorem Rules.overlay_changes_what_it_names :
    (∀ text members, parse? text = some (.obj members) → Nests members →
      Lays .istanbul members (ofText text) ∧
      (∀ text' members', parse? text' = some (.obj members') → Nests members' →
        SaysAlike members members' → ofText text' = ofText text) ∧
      ∀ c : Config, c.rulesText = some text →
        Lays c.fork members c.rules ∧
          ((member? members "fork").isSome → c.rules = ofText text)) ∧
    ∀ r : Rules, ofText (print r.toJson) = .ok r := by
  refine ⟨?_, ofText_print⟩
  intro text members parsed nests
  have read (r : Rules) := @ofText_eq_ok members r text parsed nests
  have printable : Printable (126 + 1) (.obj members) := printable_of_parse? parsed
  refine ⟨lays_ofText read, ?_, ?_⟩
  · intro text' members' parsed' nests' same
    refine ofText_congr fun r => ?_
    rw [ofText_eq_ok parsed' nests', read]
    exact ⟨same.symm.overlaid, same.overlaid⟩
  · intro c given
    have printable' : Printable (126 + 1) (.obj (Config.naming c.fork members)) :=
      Config.printable_naming printable
    have nests' : Nests (Config.naming c.fork members) := by
      rwa [Nests, Config.member?_naming (by decide)]
    rw [Config.rules_eq_ofText given parsed]
    refine ⟨lays_ofText fun r => ?_, fun named => ?_⟩
    · rw [ofText_eq_ok printable'.parse?_print nests', Config.overlaid_naming]
    · rw [Config.naming_of_named named]
      refine ofText_congr fun r => ?_
      rw [ofText_eq_ok printable.parse?_print nests, read]

/-- A depth, a price and a key that is not known, laid over the newest upgrade and over an old
one. -/
theorem Rules.overlay_of_depth_and_price :
    let text := "\x7b\"max_call_depth\":8,\"gas\":\x7b\"sload\":1\x7d,\"note\":[]\x7d"
    let members :=
      [("max_call_depth", Json.int 8), ("gas", .obj [("sload", .int 1)]), ("note", .arr [])]
    let c : Config := ⟨.homestead, some text, "info", 0⟩
    parse? text = some (.obj members) ∧ Nests members ∧ Accepted members ∧
      (∃ r, ofText text = .ok r ∧ r.maxCallDepth = 8 ∧ r.gas.sload = 1 ∧ r.gas.balance = 700) ∧
      ∃ r, c.rules = .ok r ∧ r.fork = .homestead ∧ r.maxCallDepth = 8 ∧ r.gas.sload = 1 ∧
        r.gas.balance = 20 := by
  intro text members c
  have printable : Printable maxDepth (.obj members) := by
    refine .obj 126 _ ?_ (by decide)
    simp only [members, List.forall_mem_cons]
    refine ⟨.int _ _ (by decide) (by decide), .obj _ _ ?_ (by decide), .arr _ _ ?_, ?_⟩
    · simp only [List.forall_mem_cons]
      exact ⟨.int _ _ (by decide) (by decide), List.forall_mem_nil _⟩
    · exact List.forall_mem_nil _
    · exact List.forall_mem_nil _
  have parsed : parse? text = some (.obj members) := printable.parse?_print
  have nests : Nests members := by
    rintro value ⟨⟩
    exact ⟨_, rfl⟩
  have accepted : Accepted members := by constructor <;> decide
  have lies {fork : Fork} {r : Rules} (h : Overlaid fork members r) :
      r.fork = fork ∧ r.maxCallDepth = 8 ∧ r.gas.sload = 1 ∧
        r.gas.balance = (ofFork fork).gas.balance := by
    have named : r.fork = fork := h.fork
    have depth : some 8 = some r.maxCallDepth := h.maxCallDepth
    have sload : some 1 = some r.gas.sload :=
      h.gas ("sload", GasSchedule.sload) (by simp [GasSchedule.prices])
    have balance : r.gas.balance = (ofFork r.fork).gas.balance :=
      h.gas ("balance", GasSchedule.balance) List.mem_cons_self
    exact ⟨named, (Option.some.inj depth).symm, (Option.some.inj sload).symm, named ▸ balance⟩
  obtain ⟨read, -, configured⟩ := overlay_changes_what_it_names.1 text members parsed nests
  obtain ⟨r, made, h⟩ := read.accepted accepted
  obtain ⟨r', made', h'⟩ := (configured c rfl).1.accepted accepted
  exact ⟨parsed, nests, accepted, ⟨r, made, (lies h).2⟩, r', made', lies h'⟩

end EvmEngine
