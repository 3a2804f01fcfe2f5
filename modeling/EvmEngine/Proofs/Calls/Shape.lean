import EvmEngine.Proofs.Frame.Absorb
import EvmEngine.Proofs.Calls.Gas

/-!
What the result of a frame can hold, by how the frame ended. Nothing of a frame that failed gets out
but the gas left and the output of one that reverted; a success holds the address of a new account
just where the frame was to create one, and then no output.
-/

namespace EvmEngine

open Effects Journaled

/-- What a result holds, where its frame was to create an account or not. -/
def CallResult.Shaped (creates : Bool) (r : CallResult) : Prop :=
  match r.verdict with
  | .success => r.created.isSome = creates ∧ (creates = true → r.returnData = ByteArray.empty)
  | .reverted => r.Bare ∧ r.created = none
  | .faulted _ => r.Bare ∧ r.created = none ∧ r.gasLeft = 0 ∧ r.returnData = ByteArray.empty
  | .refused => r.Bare ∧ r.created = none ∧ r.returnData = ByteArray.empty

namespace CallResult

theorem shaped_plainSuccess (gasLimit gasUsed : UInt64) (returnData : ByteArray) :
    (plainSuccess gasLimit gasUsed returnData).Shaped false :=
  ⟨rfl, fun creates => by cases creates⟩

theorem shaped_ofFault (creates : Bool) (gasLimit : UInt64) (cause : Fault) :
    (ofFault gasLimit cause).Shaped creates :=
  ⟨⟨rfl, rfl, rfl⟩, rfl, rfl, rfl⟩

theorem shaped_refusal (creates : Bool) (gasLimit : UInt64) : (refusal gasLimit).Shaped creates :=
  ⟨⟨rfl, rfl, rfl⟩, rfl, rfl⟩

theorem success_iff {r : CallResult} : r.success = true ↔ r.verdict = .success := by
  simp only [success, beq_iff_eq]

/-- What the frame was to create only matters where it succeeded. -/
theorem Shaped.of_failure {r : CallResult} {creates : Bool} (h : r.Shaped creates)
    (failed : r.success = false) (creates' : Bool) : r.Shaped creates' := by
  simp only [Shaped] at h ⊢
  cases verdict : r.verdict with
  | success =>
      rw [success_iff.mpr verdict] at failed
      cases failed
  | reverted | faulted | refused =>
      rw [verdict] at h
      exact h

end CallResult

/-- Whether the frame was entered to create an account. -/
def ReturnTarget.creates : ReturnTarget → Bool
  | .span _ _ => false
  | .account _ => true

/-- What becomes of a request: a result as it should be, or a frame to be run, unless the request is
refused. -/
def Prepared.Shaped (creates : Bool) (refused : Prop) (gas : UInt64) : Prepared → Prop
  | .finished r => r.Shaped creates ∧ (r.verdict = .refused ↔ refused) ∧
      (r.verdict = .refused → r = .refusal gas)
  | .enter f => f.target.creates = creates ∧ ¬ refused

namespace Prepared

variable {creates : Bool} {refused : Prop} {gas : UInt64}

theorem shaped_refusal (holds : refused) :
    (finished (.refusal gas)).Shaped creates refused gas :=
  ⟨CallResult.shaped_refusal _ _, ⟨fun _ => holds, fun _ => rfl⟩, fun _ => rfl⟩

/-- A result that is no refusal, where the request was not refused. -/
theorem shaped_finished {r : CallResult} (shaped : r.Shaped creates)
    (entered : r.verdict ≠ .refused) (accepted : ¬ refused) :
    (finished r).Shaped creates refused gas :=
  ⟨shaped, ⟨fun is => absurd is entered, fun holds => absurd holds accepted⟩,
    fun is => absurd is entered⟩

end Prepared

theorem CallRequest.prepare_shaped (r : CallRequest) (host : Host) (tx : TxContext)
    (depth : UInt64) (l : Ledger) :
    Ensures (r.prepare host tx depth) l
      (fun prepared _ => prepared.Shaped false (r.isRefused host.rules l depth = true) r.gas)
      (fun _ _ => True) := by
  refine .after (a := l) (t := l) rfl ?_
  split
  · next refused => exact .of_ok rfl (Prepared.shaped_refusal refused)
  · next accepted =>
      refine (Ensures.anyway _ _).bind fun code l₁ _ => ?_
      split
      · next p found =>
          have answers : Ensures (r.finishPrecompile p) l₁
              (fun answer _ => answer.Shaped false ∧ answer.verdict ≠ .refused)
              (fun _ _ => True) := by
            simp only [finishPrecompile]
            split
            · refine (Ensures.anyway _ _).bind fun _ l₂ _ => .of_ok rfl ?_
              exact ⟨CallResult.shaped_plainSuccess _ _ _, by simp [CallResult.plainSuccess]⟩
            · refine (Ensures.anyway _ _).bind fun _ l₂ _ => .of_ok rfl ?_
              exact ⟨CallResult.shaped_ofFault _ _ _, by simp [CallResult.ofFault]⟩
          refine answers.bind fun answer l₂ answered => .of_ok rfl ?_
          exact Prepared.shaped_finished answered.1 answered.2 accepted
      · split
        · refine (Ensures.anyway _ _).bind fun _ l₂ _ => .of_ok rfl ?_
          exact Prepared.shaped_finished (CallResult.shaped_plainSuccess _ _ _)
            (by simp [CallResult.plainSuccess]) accepted
        · exact .of_ok rfl ⟨rfl, accepted⟩

/-- A creation that is set up has not been refused. -/
theorem CreateRequest.enter_shaped (r : CreateRequest) (host : Host) (tx : TxContext)
    (depth : UInt64) (address : Address) (l : Ledger) :
    Ensures (r.enter host tx depth address) l
      (fun prepared _ => prepared.Shaped true False r.gas) (fun _ _ => True) := by
  refine .after (a := l) (t := l) rfl ?_
  split
  · exact .of_ok rfl (Prepared.shaped_finished (CallResult.shaped_ofFault _ _ _)
      (by simp [CallResult.ofFault]) id)
  · exact (Ensures.anyway _ _).bind fun _ l₁ _ => .of_ok rfl ⟨rfl, id⟩

namespace Frame

variable {f : Frame} {host : Host} {rules : Rules} {l l' : Ledger} {result : CallResult}

theorem shaped_result (f : Frame) : f.result.Shaped false ∧ f.result.verdict ≠ .refused := by
  simp only [Frame.result]
  cases f.halt with
  | stopped => exact ⟨⟨rfl, fun creates => by cases creates⟩, by simp⟩
  | reverted => exact ⟨⟨⟨rfl, rfl, rfl⟩, rfl⟩, by simp⟩
  | faulted cause => exact ⟨CallResult.shaped_ofFault _ _ _, by simp [CallResult.ofFault]⟩
  | running => exact ⟨CallResult.shaped_ofFault _ _ _, by simp [CallResult.ofFault]⟩

/-- A deposit after a success names the account and keeps the code back, or fails. -/
theorem shaped_depositCode {address : Address} {deposited : CallResult}
    (h : depositCode rules result address l = .ok deposited l')
    (success : result.success = true) :
    deposited.Shaped true ∧ deposited.verdict ≠ .refused := by
  have verdict := CallResult.success_iff.mp success
  have named (gasLeft gasUsed : UInt64) : ({ result with
      returnData := ByteArray.empty, gasLeft, gasUsed, created := some address } :
        CallResult).Shaped true := by
    simp [CallResult.Shaped, verdict]
  rw [depositCode] at h
  dsimp only at h
  cases tooLong : rules.maxCodeSize.filter fun limit => limit.toNat < result.returnData.size with
  | some limit =>
      simp only [tooLong] at h
      obtain ⟨rfl, -⟩ := pure_eq_ok.mp h
      exact ⟨CallResult.shaped_ofFault _ _ _, by simp [CallResult.ofFault]⟩
  | none =>
      simp only [tooLong] at h
      split at h
      · split at h
        · obtain ⟨rfl, -⟩ := pure_eq_ok.mp h
          exact ⟨CallResult.shaped_ofFault _ _ _, by simp [CallResult.ofFault]⟩
        · obtain ⟨rfl, -⟩ := pure_eq_ok.mp h
          exact ⟨named _ _, by simp [verdict]⟩
      · obtain ⟨_, _, -, h⟩ := bind_eq_ok.mp h
        obtain ⟨rfl, -⟩ := pure_eq_ok.mp h
        exact ⟨named _ _, by simp [verdict]⟩

theorem shaped_settled (h : f.settled rules l = .ok result l') :
    result.Shaped f.target.creates ∧ result.verdict ≠ .refused := by
  obtain ⟨shaped, entered⟩ := f.shaped_result
  simp only [settled] at h
  cases target : f.target with
  | span =>
      simp only [target] at h
      obtain ⟨rfl, -⟩ := pure_eq_ok.mp h
      exact ⟨shaped, entered⟩
  | account address =>
      simp only [target] at h
      split at h
      · next success => exact shaped_depositCode (orDiscard_ok h) success
      · next failed =>
          obtain ⟨rfl, -⟩ := pure_eq_ok.mp h
          exact ⟨shaped.of_failure (Bool.eq_false_iff.mpr failed) _, entered⟩

/-- The result of a frame that is finished holds what it should, and is never a refusal. -/
theorem shaped_complete (h : f.complete host l = .ok result l') :
    result.Shaped f.target.creates ∧ result.verdict ≠ .refused := by
  rw [complete_eq] at h
  obtain ⟨_, _, settles, h⟩ := bind_eq_ok.mp h
  obtain ⟨_, _, -, h⟩ := bind_eq_ok.mp h
  obtain ⟨rfl, rfl⟩ := pure_eq_ok.mp h
  exact shaped_settled settles

end Frame
end EvmEngine
