import EvmEngine.Proofs.Calls.Checkpoints
import EvmEngine.Proofs.Calls.Shape

/-!
How a creation ends once its init code has. Either the code that was returned is stored and paid for
by the byte, or the creation fails and nothing of it is left; in between lies only the oldest rule,
which lets an account go without the code that it cannot pay for.
-/

namespace EvmEngine

open Effects Journaled

namespace Gas

/-- A price below the largest machine integer has not been capped, and neither has that of no
bytes. -/
theorem codeDepositCost_exact {gas : GasSchedule} {size : Nat}
    (small : (codeDepositCost gas size).toNat + 1 < UInt64.size ∨ size = 0) :
    (codeDepositCost gas size).toNat = gas.codeDepositByte.toNat * size := by
  have length : (ofLength size).toNat = min size (UInt64.size - 1) :=
    UInt64.toNat_ofNat_of_lt' (Nat.lt_of_le_of_lt (Nat.min_le_right _ _) (by decide))
  have price : (codeDepositCost gas size).toNat =
      min (gas.codeDepositByte.toNat * (ofLength size).toNat) (UInt64.size - 1) :=
    UInt64.toNat_ofNat_of_lt' (Nat.lt_of_le_of_lt (Nat.min_le_right _ _) (by decide))
  rw [price] at small ⊢
  rw [length] at small ⊢
  obtain small | rfl := small
  rotate_left
  · simp
  obtain short | long := Nat.lt_or_ge size (UInt64.size - 1)
  · rw [Nat.min_eq_left (Nat.le_of_lt short)] at small ⊢
    omega
  · rw [Nat.min_eq_right long] at small ⊢
    -- Only a price of zero for each byte keeps such a length below the cap.
    have free : gas.codeDepositByte.toNat = 0 := by
      by_contra positive
      have whole := Nat.le_mul_of_pos_left (UInt64.size - 1) (Nat.pos_of_ne_zero positive)
      omega
    rw [free, Nat.zero_mul, Nat.zero_mul, Nat.zero_min]

theorem codeDepositCost_le (gas : GasSchedule) (size : Nat) :
    (codeDepositCost gas size).toNat ≤ gas.codeDepositByte.toNat * size := by
  have length : (ofLength size).toNat ≤ size := by
    rw [ofLength, UInt64.toNat_ofNat_of_lt' (Nat.lt_of_le_of_lt (Nat.min_le_right _ _) (by decide))]
    exact Nat.min_le_left _ _
  rw [codeDepositCost, satMul,
    UInt64.toNat_ofNat_of_lt' (Nat.lt_of_le_of_lt (Nat.min_le_right _ _) (by decide))]
  exact Nat.le_trans (Nat.min_le_left _ _) (Nat.mul_le_mul_left _ length)

end Gas

namespace CallResult

/-- What it costs to store what the init code returned. -/
def depositPrice (rules : Rules) (init : CallResult) : Nat :=
  rules.gas.codeDepositByte.toNat * init.returnData.size

/-- What the init code comes to, by itself, cannot become an account. -/
def Rejected (rules : Rules) (init : CallResult) : Prop :=
  init.success = false ∨
    (∃ limit, rules.maxCodeSize = some limit ∧ limit.toNat < init.returnData.size) ∨
    (rules.failCreateOnDepositOog = true ∧ init.gasLeft.toNat < init.depositPrice rules)

/-- The code that the init code returned is stored, for its price. -/
structure Stores (rules : Rules) (address : Address) (r init : CallResult) (after : World) :
    Prop where
  code : (after.account? address).map Account.code = some init.returnData
  gasLeft : r.gasLeft.toNat + init.depositPrice rules = init.gasLeft.toNat
  gasUsed : r.gasUsed.toNat = init.gasUsed.toNat + init.depositPrice rules

/-- The rules let an account go without the code that it cannot pay for. -/
structure GoesWithout (rules : Rules) (r init : CallResult) (left after : World) : Prop where
  lenient : rules.failCreateOnDepositOog = false
  unpaid : init.gasLeft.toNat < init.depositPrice rules
  world : after = left
  gasLeft : r.gasLeft = init.gasLeft
  gasUsed : r.gasUsed = init.gasUsed

/-- A creation that succeeded, where the init code by itself had the result `init` and left the world
`left`. -/
structure Founds (rules : Rules) (address : Address) (r init : CallResult) (left after : World) :
    Prop where
  ended : init.success = true
  success : r.success = true
  created : r.created = some address
  present : (after.account? address).isSome
  allowed : ∀ limit, rules.maxCodeSize = some limit → init.returnData.size ≤ limit.toNat
  deposit : r.Stores rules address init after ∨ r.GoesWithout rules init left after

/-- A creation that failed: it names no account, and the world is as it was before. -/
structure Undone (r : CallResult) (before after : World) : Prop where
  failed : r.success = false
  unnamed : r.created = none
  world : after = before

end CallResult

namespace Frame

variable {rules : Rules} {init deposited : CallResult} {address : Address} {l l' : Ledger}

theorem code_of_saveCode {code : ByteArray} {u : Unit}
    (held : (l.world.account? address).isSome)
    (h : onLedger (·.saveCode address code) l = .ok u l') :
    (l'.world.account? address).map Account.code = some code := by
  simp only [onLedger, Ledger.saveCode, Ledger.hasAccount, held, if_true] at h
  cases h
  simp [Ledger.modifyAccount, Account.withCode]

/-- A frame by itself names no account. -/
theorem created_result (f : Frame) : f.result.created = none := by
  simp only [result]
  cases f.halt <;> rfl

/-- A deposit founds the account or is a rejection. -/
theorem depositCode_founds (h : depositCode rules init address l = .ok deposited l')
    (success : init.success = true) (held : (l.world.account? address).isSome)
    (few : init.gasLeft.toNat + 1 < UInt64.size ∨ init.returnData.size = 0)
    (fits : init.gasUsed.toNat + init.gasLeft.toNat < UInt64.size) :
    deposited.Founds rules address init l.world l'.world ∨
      deposited.success = false ∧ deposited.created = none ∧ init.Rejected rules := by
  rw [depositCode] at h
  dsimp only at h
  cases tooLong : rules.maxCodeSize.filter fun limit => limit.toNat < init.returnData.size with
  | some limit =>
      simp only [tooLong] at h
      obtain ⟨rfl, -⟩ := pure_eq_ok.mp h
      obtain ⟨limited, long⟩ := Option.filter_eq_some_iff.mp tooLong
      exact .inr ⟨rfl, rfl, .inr (.inl ⟨limit, limited, of_decide_eq_true long⟩)⟩
  | none =>
      simp only [tooLong] at h
      have allowed (limit : UInt64) (limited : rules.maxCodeSize = some limit) :
          init.returnData.size ≤ limit.toNat := by
        have short := Option.filter_eq_none_iff.mp tooLong limit limited
        simpa using short
      split at h
      · next unpaid =>
          have short := UInt64.lt_iff_toNat_lt.mp unpaid
          have price := Gas.codeDepositCost_le rules.gas init.returnData.size
          have poor : init.gasLeft.toNat < init.depositPrice rules := Nat.lt_of_lt_of_le short price
          split at h
          · next strict =>
              obtain ⟨rfl, -⟩ := pure_eq_ok.mp h
              exact .inr ⟨rfl, rfl, .inr (.inr ⟨strict, poor⟩)⟩
          · next lenient =>
              obtain ⟨rfl, rfl⟩ := pure_eq_ok.mp h
              exact .inl ⟨success, success, rfl, held, allowed,
                .inr ⟨Bool.eq_false_iff.mpr lenient, poor, rfl, rfl, rfl⟩⟩
      · next paid =>
          obtain ⟨_, l₁, stores, h⟩ := bind_eq_ok.mp h
          obtain ⟨rfl, rfl⟩ := pure_eq_ok.mp h
          have covered := UInt64.not_lt.mp paid
          have enough := UInt64.le_iff_toNat_le.mp covered
          have price : (Gas.codeDepositCost rules.gas init.returnData.size).toNat =
              init.depositPrice rules := by
            refine Gas.codeDepositCost_exact (few.imp_left fun small => ?_)
            omega
          have code := code_of_saveCode held stores
          refine .inl ⟨success, success, rfl, ?_, allowed, .inl ⟨code, ?_, ?_⟩⟩
          · rw [← Option.isSome_map, code]
            rfl
          · rw [UInt64.toNat_sub_of_le _ _ covered, price]
            omega
          · rw [Gas.toNat_add_of_lt (by omega), price]

theorem returnData_result {f : Frame} (success : f.result.success = true) :
    f.result.returnData = f.output := by
  revert success
  simp only [result]
  cases f.halt with
  | stopped => exact fun _ => rfl
  | running | reverted | faulted => exact fun success => absurd success Bool.false_ne_true

/-- Where a frame that has ended was to create an account that is there, it founds that account, or
it fails and is undone, for one of three reasons. -/
theorem complete_founds {f : Frame} {host : Host} {result : CallResult} {w : World}
    {rest : List World} (target : f.target = .account address) (inside : l.saved = w :: rest)
    (held : (l.world.account? address).isSome) (within : f.gas ≤ f.gasLimit)
    (few : f.result.success = true → f.gas.toNat + 1 < UInt64.size ∨ f.output.size = 0)
    (h : f.complete host l = .ok result l') :
    result.Founds host.rules address f.result l.world l'.world ∨
      result.Undone w l'.world ∧ f.result.Rejected host.rules := by
  have sum := f.accounts_result within
  have bound := f.gasLimit.toNat_lt_size
  have left := UInt64.le_iff_toNat_le.mp f.gasLeft_result_le
  simp only [CallResult.Accounts] at sum
  rw [complete_eq] at h
  obtain ⟨settled, l₁, settles, h⟩ := bind_eq_ok.mp h
  obtain ⟨_, l₂, closes, h⟩ := bind_eq_ok.mp h
  obtain ⟨rfl, rfl⟩ := pure_eq_ok.mp h
  obtain ⟨kept, -⟩ := (settled_ensures inside).ok settles
  obtain ⟨l₃, closed, -, world⟩ := close_ok settled kept
  cases closes.symm.trans closed
  simp only [Frame.settled, target] at settles
  split at settles
  · next success =>
      obtain founds | ⟨failed, unnamed, rejected⟩ :=
        depositCode_founds (orDiscard_ok settles) success held
          ((few success).imp (fun less => by omega) fun empty => by
            rw [returnData_result success, empty])
          (by omega)
      · rw [founds.success, if_pos rfl] at world
        exact .inl (world ▸ founds)
      · rw [failed] at world
        exact .inr ⟨⟨failed, unnamed, world⟩, rejected⟩
  · next failed =>
      obtain ⟨rfl, rfl⟩ := pure_eq_ok.mp settles
      have failed := Bool.eq_false_iff.mpr failed
      rw [failed] at world
      exact .inr ⟨⟨failed, f.created_result, world⟩, .inl failed⟩

end Frame
end EvmEngine
