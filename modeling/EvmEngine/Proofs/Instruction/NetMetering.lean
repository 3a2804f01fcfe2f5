import EvmEngine.Proofs.Instruction.Refunds

/-!
Writes to one slot, one after the other, where writes are metered net. Each costs a plain write and
the difference between two premiums, that of the value it puts and that of the value it finds; so the
premiums of all values but the last cancel, and no detour makes a change of a slot cheaper or dearer.
-/

namespace EvmEngine
namespace Gas

/-- What a write costs, less what it brings. -/
def netCost (rules : Rules) (initial now new : Word) : Int :=
  let cost := sstoreCost rules initial now new
  cost.gas.toNat - cost.refund.toInt

/-- The net costs of writing values one after the other to a slot that holds `now`, in all. -/
def netCosts (rules : Rules) (initial : Word) : Word → List Word → Int
  | _, [] => 0
  | now, value :: rest => netCost rules initial now value + netCosts rules initial value rest

/-- What it costs beyond plain writes that a slot holds `now` and no longer its initial value. -/
def premium (gas : GasSchedule) (initial now : Word) : Int :=
  if now = initial then 0
  else if initial = 0 then gas.sstoreSet.toNat - gas.sstoreNoop.toNat
  else if now = 0 then
    gas.sstoreReset.toNat - gas.sstoreNoop.toNat - gas.sstoreClearRefund.toNat
  else gas.sstoreReset.toNat - gas.sstoreNoop.toNat

theorem premium_initial (gas : GasSchedule) (initial : Word) : premium gas initial initial = 0 :=
  if_pos rfl

section
variable {rules : Rules} (net : rules.sstoreMetering ≠ .legacy) (fits : rules.gas.Exact)
include net fits

/-- One write moves a slot from the premium of the value it found to that of the value it puts. -/
theorem netCost_eq (initial now new : Word) :
    netCost rules initial now new =
      rules.gas.sstoreNoop.toNat + premium rules.gas initial new - premium rules.gas initial now := by
  have clear := toInt_clearRefund fits
  have zero : (0 : Int64).toInt = 0 := Int64.toInt_zero
  by_cases changes : now = new
  · subst changes
    simp only [netCost, sstoreCost_unchanged net, zero]
    omega
  by_cases first : initial = now
  · subst first
    simp only [netCost, sstoreCost_first net changes, premium]
    split_ifs <;> grind
  · have brings := toInt_dirtySlotRefund fits initial now new
    simp only [netCost, sstoreCost_again net changes first, brings, premium]
    split_ifs <;> grind

/-- Of the premiums of a sequence of writes only the first and the last do not cancel. -/
theorem netCosts_eq (initial now : Word) (values : List Word) :
    netCosts rules initial now values =
      values.length * rules.gas.sstoreNoop.toNat +
        premium rules.gas initial (values.getLastD now) - premium rules.gas initial now := by
  induction values generalizing now with
  | nil => simp [netCosts]
  | cons value rest ih =>
      rw [netCosts, netCost_eq net fits, ih, List.length_cons, List.getLastD_cons]
      grind

end

/-- What writes to a slot cost in all, less what they bring, depends on their number, the initial
value and the last value alone. -/
theorem netCosts_path_independent (rules : Rules)
    (net : rules.sstoreMetering = .net ∨ rules.sstoreMetering = .netWithSentry)
    (set : rules.gas.sstoreSet.toNat ≤ 2 ^ 61) (reset : rules.gas.sstoreReset.toNat ≤ 2 ^ 61)
    (noop : rules.gas.sstoreNoop.toNat ≤ 2 ^ 61)
    (clear : rules.gas.sstoreClearRefund.toNat ≤ 2 ^ 61) (initial : Word) (values : List Word) :
    netCosts rules initial initial values =
      values.length * rules.gas.sstoreNoop.toNat +
        premium rules.gas initial (values.getLastD initial) := by
  have metered : rules.sstoreMetering ≠ .legacy := by
    obtain net | net := net <;> simp [net]
  have fits : rules.gas.Exact := ⟨by omega, by omega, by omega, by omega⟩
  rw [netCosts_eq metered fits, premium_initial, Int.sub_zero]

/-- A slot that is cleared, filled with something else and then put back: the refund that was granted
is taken back, and what the first write cost above a plain one is given back. -/
theorem netCosts_of_detour :
    let rules := Rules.ofFork .constantinople
    (rules.sstoreMetering = .net ∨ rules.sstoreMetering = .netWithSentry) ∧
      rules.gas.sstoreSet.toNat ≤ 2 ^ 61 ∧ rules.gas.sstoreReset.toNat ≤ 2 ^ 61 ∧
      rules.gas.sstoreNoop.toNat ≤ 2 ^ 61 ∧ rules.gas.sstoreClearRefund.toNat ≤ 2 ^ 61 ∧
      netCosts rules 1 1 [0, 2, 1] = 600 := by
  intro rules
  have costs := netCosts_path_independent rules (.inl rfl) (by decide) (by decide) (by decide)
    (by decide) 1 [0, 2, 1]
  exact ⟨.inl rfl, by decide, by decide, by decide, by decide, costs.trans (by decide)⟩

end Gas
end EvmEngine
