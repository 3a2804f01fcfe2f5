import EvmEngine.Pricing
import Mathlib.Algebra.GroupWithZero.Nat
import Mathlib.Algebra.Ring.Int.Defs
import Mathlib.Tactic.SplitIfs

/-!
The refund that a write to storage brings, in exact numbers. Where writes are metered net, what a
slot has been granted for being cleared is taken back when it is filled again; and whatever a slot can
still bring by further cheap writes has been paid for by the dear write that changed it first.
-/

namespace EvmEngine

/-- Prices of storage so small that no refund is cut off or wraps. -/
structure GasSchedule.Exact (gas : GasSchedule) : Prop where
  set : gas.sstoreSet.toNat < 2 ^ 62
  reset : gas.sstoreReset.toNat < 2 ^ 62
  noop : gas.sstoreNoop.toNat < 2 ^ 62
  clear : gas.sstoreClearRefund.toNat < 2 ^ 62

/-- Prices under which a first write to a slot pays for all that later writes to it can bring. -/
structure GasSchedule.Refundable (gas : GasSchedule) : Prop where
  noop_le_set : gas.sstoreNoop.toNat ≤ gas.sstoreSet.toNat
  noop_le_reset : gas.sstoreNoop.toNat ≤ gas.sstoreReset.toNat
  reset_le_clear : gas.sstoreReset.toNat ≤ gas.sstoreClearRefund.toNat
  clear_le_reset : gas.sstoreClearRefund.toNat ≤ 3 * gas.sstoreReset.toNat
  small : gas.sstoreSet.toNat + gas.sstoreClearRefund.toNat < 2 ^ 62

theorem GasSchedule.refundable_ofFork (fork : Fork) : (ofFork fork).Refundable := by
  cases fork <;> exact ⟨by decide, by decide, by decide, by decide, by decide⟩

theorem GasSchedule.Refundable.exact {gas : GasSchedule} (h : gas.Refundable) : gas.Exact := by
  obtain ⟨noop_le_set, -, reset_le_clear, -, small⟩ := h
  exact ⟨by omega, by omega, by omega, by omega⟩

namespace Gas

/-- A price as it counts towards a refund. -/
def refundable (price : UInt64) : Int :=
  min price.toNat Int64.maxValue.toInt

theorem refundable_nonneg (price : UInt64) : 0 ≤ refundable price := by
  rw [refundable, Int64.toInt_maxValue]
  omega

theorem refundable_le (price : UInt64) : refundable price ≤ Int64.maxValue.toInt :=
  Int.min_le_right _ _

theorem refundable_of_fits (price : UInt64) (fits : 2 * price.toNat < UInt64.size) :
    refundable price = price.toNat := by
  have size : UInt64.size = 2 ^ 64 := rfl
  rw [refundable, Int64.toInt_maxValue, Int.min_eq_left (by omega)]

theorem asRefund_eq (price : UInt64) : asRefund price = Int64.ofInt (refundable price) := rfl

theorem toInt_asRefund (price : UInt64) (fits : 2 * price.toNat < UInt64.size) :
    (asRefund price).toInt = price.toNat := by
  have size : UInt64.size = 2 ^ 64 := rfl
  rw [asRefund_eq, refundable_of_fits price fits]
  exact Int64.toInt_ofInt_of_le (by omega) (by omega)

theorem toInt_clearRefund {gas : GasSchedule} (fits : gas.Exact) :
    (asRefund gas.sstoreClearRefund).toInt = gas.sstoreClearRefund.toNat := by
  have small := fits.clear
  have size : UInt64.size = 2 ^ 64 := rfl
  exact toInt_asRefund _ (by omega)

/-- A sum of refunds that fits is exact. -/
theorem toInt_addRefund {a b : Int64} (least : -2 ^ 63 ≤ a.toInt + b.toInt)
    (most : a.toInt + b.toInt < 2 ^ 63) : (addRefund a b).toInt = a.toInt + b.toInt := by
  rw [addRefund, Int64.toInt_minValue, Int64.toInt_maxValue, Int.min_eq_left (by omega), Int.max_eq_right least]
  exact Int64.toInt_ofInt_of_le least most

theorem addRefund_zero (a : Int64) : addRefund a 0 = a := by
  have least := a.le_toInt
  have most := a.toInt_lt
  apply Int64.toInt_inj.mp
  have zero : (0 : Int64).toInt = 0 := Int64.toInt_zero
  rw [toInt_addRefund (by omega) (by omega), zero, Int.add_zero]

/-- The refund that a slot which was not empty has been granted while it is. -/
def granted (gas : GasSchedule) (initial now : Word) : Int :=
  if initial ≠ 0 ∧ now = 0 then gas.sstoreClearRefund.toNat else 0

/-- A bound on the refund that further writes to a slot can bring beyond what they cost. -/
def reserve (gas : GasSchedule) (initial now : Word) : Int :=
  if now = initial then 0
  else if initial = 0 then gas.sstoreSet.toNat
  else if now = 0 then 0
  else gas.sstoreClearRefund.toNat

theorem granted_nonneg (gas : GasSchedule) (initial now : Word) : 0 ≤ granted gas initial now := by
  simp only [granted]
  split <;> omega

theorem reserve_nonneg (gas : GasSchedule) (initial now : Word) : 0 ≤ reserve gas initial now := by
  simp only [reserve]
  split_ifs <;> omega

/-- The refund of a slot changed before is taken in machine integers throughout, which comes to the
same as to reduce the exact sum once. -/
theorem dirtySlotRefund_eq_ofInt (gas : GasSchedule) (initial now new : Word) :
    dirtySlotRefund gas initial now new = Int64.ofInt
      ((if initial = 0 then 0
        else if now = 0 then -refundable gas.sstoreClearRefund
        else if new = 0 then refundable gas.sstoreClearRefund else 0) +
      if initial = new then
        (if initial = 0 then refundable gas.sstoreSet - refundable gas.sstoreNoop
          else refundable gas.sstoreReset - refundable gas.sstoreNoop)
      else 0) := by
  simp only [dirtySlotRefund, asRefund_eq, Int64.ofInt_add]
  split_ifs <;> simp

theorem toInt_dirtySlotRefund {gas : GasSchedule} (fits : gas.Exact)
    (initial now new : Word) :
    (dirtySlotRefund gas initial now new).toInt =
      (if initial = 0 then 0 else if now = 0 then -(gas.sstoreClearRefund.toNat : Int)
        else if new = 0 then gas.sstoreClearRefund.toNat else 0) +
      if initial = new then
        (if initial = 0 then (gas.sstoreSet.toNat : Int) - gas.sstoreNoop.toNat
          else gas.sstoreReset.toNat - gas.sstoreNoop.toNat)
      else 0 := by
  obtain ⟨set, reset, noop, clear⟩ := fits
  have size : UInt64.size = 2 ^ 64 := rfl
  rw [dirtySlotRefund_eq_ofInt, refundable_of_fits gas.sstoreSet (by omega),
    refundable_of_fits gas.sstoreReset (by omega), refundable_of_fits gas.sstoreNoop (by omega),
    refundable_of_fits gas.sstoreClearRefund (by omega)]
  apply Int64.toInt_ofInt_of_le <;> split_ifs <;> omega

section
variable {rules : Rules} (net : rules.sstoreMetering ≠ .legacy)
include net

theorem sstoreCost_of_net (initial now new : Word) :
    sstoreCost rules initial now new =
      if now = new then ⟨rules.gas.sstoreNoop, 0⟩
      else if initial = now then
        if initial = 0 then ⟨rules.gas.sstoreSet, 0⟩
        else ⟨rules.gas.sstoreReset, if new = 0 then asRefund rules.gas.sstoreClearRefund else 0⟩
      else ⟨rules.gas.sstoreNoop, dirtySlotRefund rules.gas initial now new⟩ := by
  simp only [sstoreCost]
  cases metering : rules.sstoreMetering with
  | legacy => exact absurd metering net
  | net | netWithSentry => rfl

theorem sstoreCost_unchanged (initial now : Word) :
    sstoreCost rules initial now now = ⟨rules.gas.sstoreNoop, 0⟩ := by
  rw [sstoreCost_of_net net, if_pos rfl]

theorem sstoreCost_first {now new : Word} (changes : now ≠ new) :
    sstoreCost rules now now new =
      if now = 0 then ⟨rules.gas.sstoreSet, 0⟩
      else ⟨rules.gas.sstoreReset, if new = 0 then asRefund rules.gas.sstoreClearRefund else 0⟩ := by
  rw [sstoreCost_of_net net, if_neg changes, if_pos rfl]

theorem sstoreCost_again {initial now new : Word} (changes : now ≠ new) (changed : initial ≠ now) :
    sstoreCost rules initial now new =
      ⟨rules.gas.sstoreNoop, dirtySlotRefund rules.gas initial now new⟩ := by
  rw [sstoreCost_of_net net, if_neg changes, if_neg changed]

/-- A write to a slot brings at least what the slot is granted after it and not before. -/
theorem granted_le_refund (refundable : rules.gas.Refundable) (initial now new : Word) :
    granted rules.gas initial new ≤
      granted rules.gas initial now + (sstoreCost rules initial now new).refund.toInt := by
  have clear := toInt_clearRefund refundable.exact
  by_cases changes : now = new
  · subst changes
    simp [sstoreCost_unchanged net]
  by_cases first : initial = now
  · rw [first, sstoreCost_first net changes]
    simp only [granted]
    split_ifs <;> grind
  · have brings := toInt_dirtySlotRefund refundable.exact initial now new
    have set := refundable.noop_le_set
    have reset := refundable.noop_le_reset
    rw [sstoreCost_again net changes first]
    simp only [granted, brings]
    split_ifs <;> grind

/-- What a write brings, and all that the slot can bring after it, has been paid for: out of what it
could bring before, or by the price of the write. -/
theorem refund_le_reserve (refundable : rules.gas.Refundable) (initial now new : Word) :
    (sstoreCost rules initial now new).refund.toInt + reserve rules.gas initial new ≤
      reserve rules.gas initial now + 3 * (sstoreCost rules initial now new).gas.toNat := by
  have clear := toInt_clearRefund refundable.exact
  by_cases changes : now = new
  · rw [changes, sstoreCost_unchanged net, Int64.toInt_zero]
    omega
  by_cases first : initial = now
  · have reset := refundable.clear_le_reset
    rw [first, sstoreCost_first net changes]
    simp only [reserve]
    split_ifs <;> grind
  · have brings := toInt_dirtySlotRefund refundable.exact initial now new
    have reset := refundable.reset_le_clear
    rw [sstoreCost_again net changes first]
    simp only [reserve, brings]
    split_ifs <;> grind

end
end Gas
end EvmEngine
