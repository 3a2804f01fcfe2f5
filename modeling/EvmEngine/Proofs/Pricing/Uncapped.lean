import EvmEngine.Instruction.System
import EvmEngine.Proofs.Instruction.Refunds
import EvmEngine.Proofs.Instruction.Table
import Mathlib.Tactic.SplitIfs

/-!
Sums of prices without a cap. The base price of a log, the price of a transaction before any code
runs, the surcharge of a call and the refund of a write to a changed slot are plain sums of machine
integers: what does not fit loses its high digits, and the price or the refund becomes small or
changes its sign, where the other prices stop at the largest number.
-/

namespace EvmEngine
namespace Gas

/-- A machine integer in place of a number that may not fit: the number loses its high digits. It is
the number, cut off at the largest machine integer, where it fits or where the digits that are left
happen to be those of the cut-off. -/
structure Wraps (value : UInt64) (exact : Nat) : Prop where
  value_eq : value = UInt64.ofNat exact
  capped_iff : value.toNat = min exact (UInt64.size - 1) ↔
    exact < UInt64.size ∨ exact % UInt64.size = UInt64.size - 1

theorem Wraps.of_eq {value : UInt64} {exact : Nat} (same : value = UInt64.ofNat exact) :
    Wraps value exact where
  value_eq := same
  capped_iff := by
    have pos : 0 < UInt64.size := by decide
    have reduced : value.toNat = exact % UInt64.size := by
      rw [same]
      exact UInt64.toNat_ofNat'
    obtain fits | beyond := Nat.lt_or_ge exact UInt64.size
    · have low := Nat.mod_eq_of_lt fits
      omega
    · omega

/-- A signed machine integer in place of a number that may not fit. It is the number, cut off at both
ends of the range, only where the number is in the range. -/
structure SignedWraps (value : Int64) (exact : Int) : Prop where
  value_eq : value = Int64.ofInt exact
  capped_iff : value.toInt = max Int64.minValue.toInt (min exact Int64.maxValue.toInt) ↔
    Int64.minValue.toInt ≤ exact ∧ exact ≤ Int64.maxValue.toInt

/-- A number less than a whole period out of the range is never reduced to the end that it passed. -/
theorem SignedWraps.of_eq {value : Int64} {exact : Int} (same : value = Int64.ofInt exact)
    (least : 2 * Int64.minValue.toInt < exact) (most : exact ≤ 2 * Int64.maxValue.toInt) :
    SignedWraps value exact where
  value_eq := same
  capped_iff := by
    have reduced : value.toInt = exact.bmod Int64.size := by
      rw [same]
      exact Int64.toInt_ofInt
    rw [Int64.toInt_minValue, Int64.toInt_maxValue] at *
    have size : Int64.size = 2 ^ 64 := rfl
    rw [reduced, Int.bmod_def, size]
    omega

/-- The base price of a log in exact numbers. -/
def exactLogBase (gas : GasSchedule) (topics : Nat) : Nat :=
  gas.log.toNat + gas.logTopic.toNat * topics

/-- The price of a transaction before any code runs, in exact numbers. -/
def exactIntrinsic (gas : GasSchedule) (data : ByteArray) (isCreate : Bool) : Nat :=
  (if isCreate then gas.txCreate else gas.tx).toNat +
    (data.data.toList.map fun b => (if b = 0 then gas.txDataZero else gas.txDataNonZero).toNat).sum

/-- The surcharge of a call in exact numbers. -/
def exactCallSurcharge (rules : Rules) (l : Ledger) (scheme : CallScheme) (transfersValue : Bool)
    (callee : Address) : Nat :=
  (if transfersValue then rules.gas.callValue.toNat else 0) +
    (if scheme = .call ∧ Instruction.createsCallee rules l transfersValue callee then
      rules.gas.callNewAccount.toNat else 0)

/-- The refund of a write in exact numbers. -/
def exactRefund (rules : Rules) (initial current new : Word) : Int :=
  let clear := refundable rules.gas.sstoreClearRefund
  let noop := refundable rules.gas.sstoreNoop
  if rules.sstoreMetering = .legacy then
    if current ≠ 0 ∧ new = 0 then clear else 0
  else if current = new then 0
  else if initial = current then
    if initial ≠ 0 ∧ new = 0 then clear else 0
  else
    (if initial = 0 then 0 else if current = 0 then -clear else if new = 0 then clear else 0) +
      (if initial = new then
        (if initial = 0 then refundable rules.gas.sstoreSet - noop
          else refundable rules.gas.sstoreReset - noop)
      else 0)

theorem baseGas_log (gas : GasSchedule) (topics : Fin 5) :
    (Opcode.log topics).baseGas gas = UInt64.ofNat (exactLogBase gas topics) := by
  simp only [Opcode.baseGas, exactLogBase, UInt64.ofNat_add, UInt64.ofNat_mul, UInt64.ofNat_toNat]

/-- To add prices one by one in machine integers comes to the same as to reduce their sum once. -/
theorem foldl_eq_add_ofNat (price : UInt8 → UInt64) (bytes : List UInt8) (sum : UInt64) :
    bytes.foldl (fun sum b => sum + price b) sum =
      sum + UInt64.ofNat (bytes.map fun b => (price b).toNat).sum := by
  induction bytes generalizing sum with
  | nil => simp
  | cons b bytes ih =>
      simp only [List.foldl_cons, ih, List.map_cons, List.sum_cons, UInt64.ofNat_add,
        UInt64.ofNat_toNat, UInt64.add_assoc]

theorem intrinsic_eq_ofNat (gas : GasSchedule) (data : ByteArray) (isCreate : Bool) :
    intrinsic gas data isCreate = UInt64.ofNat (exactIntrinsic gas data isCreate) := by
  rw [intrinsic, exactIntrinsic, UInt64.ofNat_add, UInt64.ofNat_toNat, ← Array.foldl_toList,
    foldl_eq_add_ofNat (fun b => if b = 0 then gas.txDataZero else gas.txDataNonZero),
    UInt64.zero_add]

theorem callSurcharge_eq_ofNat (rules : Rules) (l : Ledger) (scheme : CallScheme)
    (transfersValue : Bool) (callee : Address) :
    Instruction.callSurcharge rules l scheme transfersValue callee =
      UInt64.ofNat (exactCallSurcharge rules l scheme transfersValue callee) := by
  simp only [Instruction.callSurcharge, exactCallSurcharge, UInt64.ofNat_add]
  split_ifs <;> simp

theorem refund_eq_ofInt (rules : Rules) (initial current new : Word) :
    (sstoreCost rules initial current new).refund =
      Int64.ofInt (exactRefund rules initial current new) := by
  by_cases net : rules.sstoreMetering = .legacy
  · simp only [sstoreCost, exactRefund, net, if_true, asRefund_eq]
    split_ifs <;> rfl
  by_cases changes : current = new
  · rw [changes, sstoreCost_unchanged net]
    simp only [exactRefund, if_neg net, if_true]
    rfl
  by_cases first : initial = current
  · rw [first, sstoreCost_first net changes]
    simp only [exactRefund, if_neg net, if_neg changes, if_true, asRefund_eq]
    by_cases empty : current = 0
    · rw [if_pos empty, if_neg fun cleared => cleared.1 empty]
      rfl
    · rw [if_neg empty]
      simp only [ne_eq, empty, not_false_eq_true, true_and]
      split_ifs <;> rfl
  · rw [sstoreCost_again net changes first]
    simp only [exactRefund, if_neg net, if_neg changes, if_neg first, dirtySlotRefund_eq_ofInt]

theorem exactRefund_bounds (rules : Rules) (initial current new : Word) :
    2 * Int64.minValue.toInt < exactRefund rules initial current new ∧
      exactRefund rules initial current new ≤ 2 * Int64.maxValue.toInt := by
  have bounds : ∀ price, 0 ≤ refundable price ∧ refundable price ≤ Int64.maxValue.toInt :=
    fun price => ⟨refundable_nonneg price, refundable_le price⟩
  obtain ⟨clear, clear'⟩ := bounds rules.gas.sstoreClearRefund
  obtain ⟨noop, noop'⟩ := bounds rules.gas.sstoreNoop
  obtain ⟨set, set'⟩ := bounds rules.gas.sstoreSet
  obtain ⟨reset, reset'⟩ := bounds rules.gas.sstoreReset
  rw [Int64.toInt_maxValue] at *
  rw [Int64.toInt_minValue]
  simp only [exactRefund]
  split_ifs <;> omega

/-- Whatever the prices, none of the four sums is capped. -/
theorem uncapped_sums (rules : Rules) (topics : Fin 5) (data : ByteArray) (isCreate : Bool)
    (l : Ledger) (scheme : CallScheme) (transfersValue : Bool) (callee : Address)
    (initial current new : Word) :
    (∃ entry, (OpcodeTable.ofRules rules).get? (Opcode.log topics).toByte = some entry ∧
        entry.opcode = .log topics ∧ Wraps entry.baseGas (exactLogBase rules.gas topics)) ∧
      Wraps (intrinsic rules.gas data isCreate) (exactIntrinsic rules.gas data isCreate) ∧
      Wraps (Instruction.callSurcharge rules l scheme transfersValue callee)
        (exactCallSurcharge rules l scheme transfersValue callee) ∧
      SignedWraps (sstoreCost rules initial current new).refund
        (exactRefund rules initial current new) := by
  have named : Opcode.ofByte? (Opcode.log topics).toByte = some (.log topics) := by
    decide +revert
  obtain ⟨least, most⟩ := exactRefund_bounds rules initial current new
  refine ⟨?_, .of_eq (intrinsic_eq_ofNat rules.gas data isCreate),
    .of_eq (callSurcharge_eq_ofNat rules l scheme transfersValue callee),
    .of_eq (refund_eq_ofInt rules initial current new) least most⟩
  rw [OpcodeTable.get?_ofRules, Rules.opcodeEntry?, named]
  exact ⟨_, rfl, rfl, .of_eq (baseGas_log rules.gas topics)⟩

/-- Prices at the end of the range. -/
def hugePrices : Rules :=
  let rules := Rules.ofFork .istanbul
  { rules with gas := { rules.gas with
      log := 18446744073709551615
      tx := 18446744073709551615
      callValue := 18446744073709551615
      sstoreNoop := 9223372036854775807
      sstoreClearRefund := 9223372036854775807
      sstoreReset := 0 } }

/-- Under such prices a log with one topic, a transaction with one byte of data and a call that brings
an account into being are cheap, and filling a cleared slot with its initial value brings a refund
where it should take back twice the largest one. -/
theorem hugePrices_wrap :
    ((OpcodeTable.ofRules hugePrices).get? (Opcode.log 1).toByte).map OpcodeEntry.baseGas =
        some 374 ∧
      exactLogBase hugePrices.gas 1 = 18446744073709551990 ∧
      intrinsic hugePrices.gas ⟨#[1]⟩ false = 15 ∧
      exactIntrinsic hugePrices.gas ⟨#[1]⟩ false = 18446744073709551631 ∧
      Instruction.callSurcharge hugePrices Ledger.empty .call true 0 = 24999 ∧
      exactCallSurcharge hugePrices Ledger.empty .call true 0 = 18446744073709576615 ∧
      (sstoreCost hugePrices 1 0 1).refund = 2 ∧
      exactRefund hugePrices 1 0 1 = -18446744073709551614 := by
  rw [OpcodeTable.get?_ofRules]
  decide

end Gas
end EvmEngine
