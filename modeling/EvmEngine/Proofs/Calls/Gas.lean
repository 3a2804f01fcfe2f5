import EvmEngine.Calls
import EvmEngine.Proofs.Effects
import EvmEngine.Proofs.Pricing.Saturation

/-!
The gas of a result. Every answer to a request and every frame that is finished accounts for all of
the gas it was given, as used or as left, and no sum or difference on the way leaves the range of
the machine integers.
-/

namespace EvmEngine

open Effects

/-- A result that accounts for all of the gas that was given: part of it used, the rest left. -/
def CallResult.Accounts (gas : UInt64) (result : CallResult) : Prop :=
  result.gasUsed.toNat + result.gasLeft.toNat = gas.toNat

namespace CallResult

theorem Accounts.gasLeft_le {gas : UInt64} {result : CallResult} (h : result.Accounts gas) :
    result.gasLeft ≤ gas := by
  simp only [Accounts] at h
  rw [UInt64.le_iff_toNat_le]
  omega

theorem accounts_plainSuccess {gasLimit gasUsed : UInt64} (covered : gasUsed ≤ gasLimit)
    (returnData : ByteArray) : (plainSuccess gasLimit gasUsed returnData).Accounts gasLimit := by
  have enough := UInt64.le_iff_toNat_le.mp covered
  simp only [Accounts, plainSuccess, if_neg (UInt64.not_lt.mpr covered),
    UInt64.toNat_sub_of_le _ _ covered]
  omega

theorem accounts_ofFault (gasLimit : UInt64) (cause : Fault) :
    (ofFault gasLimit cause).Accounts gasLimit := rfl

theorem accounts_refusal (gasLimit : UInt64) : (refusal gasLimit).Accounts gasLimit := by
  simp [Accounts, refusal]

end CallResult

theorem Precompile.gasUsed_le {p : Precompile} {input : ByteArray} {gas : UInt64}
    {output : PrecompileOutput} (h : p.run input gas = .ok output) : output.gasUsed ≤ gas := by
  simp only [run, charge, bind, Except.bind] at h
  split at h
  · cases h
  · next price paid =>
      split at paid
      · cases paid
      · next covered =>
          cases paid
          split at h
          · cases h
            exact UInt64.not_lt.mp covered
          · cases h

namespace Journaled

theorem orDiscard_ok {α : Type} {x : Journaled α} {l l' : Ledger} {a : α}
    (h : orDiscard x l = .ok a l') : x l = .ok a l' := by
  simp only [orDiscard] at h
  split at h
  · next run =>
      cases h
      exact run
  · cases h

end Journaled

open Journaled

namespace Frame

variable {f : Frame} {host : Host} {rules : Rules} {l l' : Ledger} {result : CallResult}

theorem gasLeft_result_le (f : Frame) : f.result.gasLeft ≤ f.gas := by
  simp only [Frame.result]
  split
  · exact UInt64.le_refl _
  · exact UInt64.le_refl _
  · exact UInt64.zero_le
  · exact UInt64.zero_le

theorem accounts_result (h : f.gas ≤ f.gasLimit) : f.result.Accounts f.gasLimit := by
  have within := UInt64.le_iff_toNat_le.mp h
  simp only [Frame.result]
  split
  · simp only [CallResult.Accounts, UInt64.toNat_sub_of_le _ _ h]
    omega
  · simp only [CallResult.Accounts, UInt64.toNat_sub_of_le _ _ h]
    omega
  · exact CallResult.accounts_ofFault _ _
  · exact CallResult.accounts_ofFault _ _

/-- The gas after a deposit: all of it used, or a price paid out of what was left. -/
theorem depositCode_ok {rules : Rules} {address : Address} {deposited : CallResult}
    (h : depositCode rules result address l = .ok deposited l') :
    (deposited.gasLeft = 0 ∧ deposited.gasUsed = result.gasUsed + result.gasLeft) ∨
      ∃ price, price ≤ result.gasLeft ∧ deposited.gasLeft = result.gasLeft - price ∧
        deposited.gasUsed = result.gasUsed + price := by
  rw [depositCode] at h
  dsimp only at h
  cases tooLong : rules.maxCodeSize.filter fun limit => limit.toNat < result.returnData.size with
  | some limit =>
      simp only [tooLong] at h
      obtain ⟨rfl, rfl⟩ := pure_eq_ok.mp h
      exact .inl ⟨rfl, rfl⟩
  | none =>
      simp only [tooLong] at h
      split at h
      · split at h
        · obtain ⟨rfl, rfl⟩ := pure_eq_ok.mp h
          exact .inl ⟨rfl, rfl⟩
        · obtain ⟨rfl, rfl⟩ := pure_eq_ok.mp h
          exact .inr ⟨0, UInt64.zero_le, (UInt64.sub_zero _).symm, (UInt64.add_zero _).symm⟩
      · next covered =>
          obtain ⟨_, _, stored, h⟩ := bind_eq_ok.mp h
          obtain ⟨rfl, rfl⟩ := pure_eq_ok.mp h
          exact .inr ⟨_, UInt64.not_lt.mp covered, rfl, rfl⟩

/-- A deposit that succeeds leaves the record and the refund of a frame that has succeeded as they
are. -/
theorem depositCode_success {rules : Rules} {address : Address} {deposited : CallResult}
    (h : depositCode rules result address l = .ok deposited l')
    (success : deposited.success = true) :
    result.success = true ∧ deposited.logs = result.logs ∧
      deposited.destroyed = result.destroyed ∧ deposited.refund = result.refund := by
  rw [depositCode] at h
  dsimp only at h
  cases tooLong : rules.maxCodeSize.filter fun limit => limit.toNat < result.returnData.size with
  | some limit =>
      simp only [tooLong] at h
      obtain ⟨rfl, -⟩ := pure_eq_ok.mp h
      cases success
  | none =>
      simp only [tooLong] at h
      split at h
      · split at h
        · obtain ⟨rfl, -⟩ := pure_eq_ok.mp h
          cases success
        · obtain ⟨rfl, -⟩ := pure_eq_ok.mp h
          exact ⟨success, rfl, rfl, rfl⟩
      · obtain ⟨_, _, -, h⟩ := bind_eq_ok.mp h
        obtain ⟨rfl, -⟩ := pure_eq_ok.mp h
        exact ⟨success, rfl, rfl, rfl⟩

theorem gasLeft_depositCode_le {address : Address} {deposited : CallResult}
    (h : depositCode rules result address l = .ok deposited l') :
    deposited.gasLeft ≤ result.gasLeft := by
  obtain ⟨none, -⟩ | ⟨price, covered, left, -⟩ := depositCode_ok h
  · rw [none]
    exact UInt64.zero_le
  · rw [left]
    exact UInt64.sub_le covered

theorem accounts_depositCode {address : Address} {deposited : CallResult} {gas : UInt64}
    (h : depositCode rules result address l = .ok deposited l') (before : result.Accounts gas) :
    deposited.Accounts gas := by
  have bound := gas.toNat_lt_size
  simp only [CallResult.Accounts] at before ⊢
  obtain ⟨left, used⟩ | ⟨price, covered, left, used⟩ := depositCode_ok h
  · rw [left, used, Gas.toNat_add_of_lt (by omega)]
    exact before
  · have enough := UInt64.le_iff_toNat_le.mp covered
    rw [left, used, UInt64.toNat_sub_of_le _ _ covered, Gas.toNat_add_of_lt (by omega)]
    omega

/-- The result of a frame before its checkpoint is closed. -/
def settled (f : Frame) (rules : Rules) : Journaled CallResult :=
  match f.target with
  | .account address =>
      if f.result.success then orDiscard (depositCode rules f.result address) else pure f.result
  | .span _ _ => pure f.result

theorem complete_eq (f : Frame) (host : Host) :
    f.complete host = (do
      let result ← f.settled host.rules
      onLedger (if result.success then Ledger.commit else Ledger.rollback)
      return result) := by
  simp only [complete, settled]
  cases f.target with
  | account address =>
      dsimp only
      split <;> rfl
  | span offset length => rfl

theorem settled_cases (h : f.settled rules l = .ok result l') :
    (result = f.result ∧ l' = l) ∨
      ∃ address, depositCode rules f.result address l = .ok result l' := by
  simp only [settled] at h
  cases target : f.target with
  | span =>
      simp only [target] at h
      obtain ⟨rfl, rfl⟩ := pure_eq_ok.mp h
      exact .inl ⟨rfl, rfl⟩
  | account address =>
      simp only [target] at h
      split at h
      · exact .inr ⟨address, orDiscard_ok h⟩
      · obtain ⟨rfl, rfl⟩ := pure_eq_ok.mp h
        exact .inl ⟨rfl, rfl⟩

theorem result_of_success (success : f.result.success = true) :
    f.result.logs = f.logs ∧ f.result.destroyed = f.destroyed ∧ f.result.refund = f.refund := by
  revert success
  simp only [result]
  cases f.halt with
  | stopped => exact fun _ => ⟨rfl, rfl, rfl⟩
  | running | reverted | faulted => exact fun success => absurd success Bool.false_ne_true

/-- A frame that is finished with success hands over its record and its refund counter. -/
theorem complete_success (h : f.complete host l = .ok result l')
    (success : result.success = true) :
    result.logs = f.logs ∧ result.destroyed = f.destroyed ∧ result.refund = f.refund := by
  rw [complete_eq] at h
  obtain ⟨_, _, settles, h⟩ := bind_eq_ok.mp h
  obtain ⟨_, _, -, h⟩ := bind_eq_ok.mp h
  obtain ⟨rfl, rfl⟩ := pure_eq_ok.mp h
  obtain ⟨rfl, -⟩ | ⟨address, deposited⟩ := settled_cases settles
  · exact result_of_success success
  · obtain ⟨ended, logs, destroyed, refund⟩ := depositCode_success deposited success
    rw [logs, destroyed, refund]
    exact result_of_success ended

/-- A frame that is finished leaves at most the gas it had. -/
theorem gasLeft_complete_le (h : f.complete host l = .ok result l') :
    result.gasLeft ≤ f.gas := by
  rw [complete_eq] at h
  obtain ⟨_, _, settles, h⟩ := bind_eq_ok.mp h
  obtain ⟨_, _, -, h⟩ := bind_eq_ok.mp h
  obtain ⟨rfl, rfl⟩ := pure_eq_ok.mp h
  obtain ⟨rfl, -⟩ | ⟨address, deposited⟩ := settled_cases settles
  · exact f.gasLeft_result_le
  · exact UInt64.le_trans (gasLeft_depositCode_le deposited) f.gasLeft_result_le

/-- A frame that is finished accounts for its gas limit. -/
theorem accounts_complete (within : f.gas ≤ f.gasLimit)
    (h : f.complete host l = .ok result l') : result.Accounts f.gasLimit := by
  rw [complete_eq] at h
  obtain ⟨_, _, settles, h⟩ := bind_eq_ok.mp h
  obtain ⟨_, _, -, h⟩ := bind_eq_ok.mp h
  obtain ⟨rfl, rfl⟩ := pure_eq_ok.mp h
  obtain ⟨rfl, -⟩ | ⟨address, deposited⟩ := settled_cases settles
  · exact accounts_result within
  · exact accounts_depositCode deposited (accounts_result within)

end Frame
end EvmEngine
