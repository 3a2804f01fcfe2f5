import EvmEngine.Pricing

/-!
Capped arithmetic on machine integers, read as arithmetic on natural numbers: a sum or a product is
the exact one or the cap, and a difference is cut off at zero.
-/

namespace EvmEngine
namespace Gas

theorem toNat_add_of_lt {a b : UInt64} (h : a.toNat + b.toNat < UInt64.size) :
    (a + b).toNat = a.toNat + b.toNat := by
  rw [UInt64.toNat_add, Nat.mod_eq_of_lt h]

/-- A number that is capped at the largest machine integer stays below its own size. -/
theorem toNat_ofNat_capped (n : Nat) :
    (UInt64.ofNat (min n (UInt64.size - 1))).toNat = min n (UInt64.size - 1) :=
  UInt64.toNat_ofNat_of_lt' (Nat.lt_of_le_of_lt (Nat.min_le_right _ _) (by decide))

theorem toNat_satAdd (a b : UInt64) :
    (satAdd a b).toNat = min (a.toNat + b.toNat) (UInt64.size - 1) :=
  toNat_ofNat_capped _

theorem toNat_satAdd_of_lt {a b : UInt64} (h : a.toNat + b.toNat < UInt64.size) :
    (satAdd a b).toNat = a.toNat + b.toNat := by
  rw [toNat_satAdd]
  omega

theorem toNat_satAdd_le (a b : UInt64) : (satAdd a b).toNat ≤ a.toNat + b.toNat := by
  rw [toNat_satAdd]
  exact Nat.min_le_left _ _

theorem toNat_satMul (a b : UInt64) :
    (satMul a b).toNat = min (a.toNat * b.toNat) (UInt64.size - 1) :=
  toNat_ofNat_capped _

theorem toNat_satSub (a b : UInt64) : (satSub a b).toNat = a.toNat - b.toNat := by
  simp only [satSub]
  split
  · next less =>
      have below := UInt64.lt_iff_toNat_lt.mp less
      rw [UInt64.toNat_zero]
      omega
  · next more => exact UInt64.toNat_sub_of_le _ _ (UInt64.not_lt.mp more)

theorem toNat_ofLength (n : Nat) : (ofLength n).toNat = min n (UInt64.size - 1) :=
  toNat_ofNat_capped _

theorem toNat_max (a b : UInt64) : (max a b).toNat = max a.toNat b.toNat := by
  show (if a ≤ b then b else a).toNat = max a.toNat b.toNat
  split
  · next le => rw [Nat.max_eq_right (UInt64.le_iff_toNat_le.mp le)]
  · next more =>
      have less := UInt64.lt_iff_toNat_lt.mp (UInt64.not_le.mp more)
      rw [Nat.max_eq_left (Nat.le_of_lt less)]

end Gas
end EvmEngine
