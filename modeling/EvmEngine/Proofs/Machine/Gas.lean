import EvmEngine.Proofs.Machine.Checkpoints

/-!
Gas is moved between frames and never made. An iteration spends gas of the innermost frame, lends
some of it to a new frame, or returns what is left of it; a loan comes with a stipend only where the
lender has paid a surcharge that covers it. So a frame's gas and that of the frames above it, which
is lent by it, stay within its limit together.
-/

namespace EvmEngine

open Effects

/-- Carrying value costs at least what the callee is given for it, and the surcharges of a call add
up to a machine integer. -/
structure GasSchedule.CoversStipend (gas : GasSchedule) : Prop where
  stipend : gas.callStipend ≤ gas.callValue
  surcharges : gas.callValue.toNat + gas.callNewAccount.toNat < UInt64.size

theorem GasSchedule.coversStipend_ofFork (fork : Fork) : (ofFork fork).CoversStipend := by
  cases fork <;> exact ⟨by decide, by decide⟩

namespace Instruction

theorem stipend_le_callSurcharge {rules : Rules} (covers : rules.gas.CoversStipend) (l : Ledger)
    (scheme : CallScheme) (transfersValue : Bool) (callee : Address) :
    (stipend rules.gas transfersValue).toNat ≤
      (callSurcharge rules l scheme transfersValue callee).toNat := by
  cases transfersValue with
  | false => exact Nat.zero_le _
  | true =>
      have enough := UInt64.le_iff_toNat_le.mp covers.stipend
      have sum := covers.surcharges
      simp only [stipend, callSurcharge, if_true]
      split
      · rw [Gas.toNat_add_of_lt sum]
        omega
      · rw [UInt64.add_zero]
        exact enough

theorem gas_callRequest (rules : Rules) (scheme : CallScheme) (operands : CallOperands)
    (value : Word) (transfersValue : Bool) (sent : UInt64) (f : Frame)
    (fits : sent.toNat + (stipend rules.gas transfersValue).toNat < UInt64.size) :
    (callRequest rules scheme operands value transfersValue sent f).gas.toNat =
      sent.toNat + (stipend rules.gas transfersValue).toNat := by
  cases transfersValue with
  | false => rfl
  | true => exact Gas.toNat_satAdd_of_lt fits

end Instruction

open Instruction

namespace Focus

variable {host : Host} {fetched : Fetched} {s s' : Focus}

/-- What a frame that calls loses before the call: the charges, and what the gas of the call has
above the stipend. -/
theorem gas_step_call {r : CallRequest} (covers : host.rules.gas.CoversStipend)
    (stepped : s.step host fetched = .ok (.call r) s') :
    ∃ entry scheme, fetched = .instruction entry ∧ entry.opcode = .call scheme ∧
      r.transfersValue = transfers scheme (operandsOf scheme s.frame.stack.words).1 ∧
      s'.frame.gas.toNat + callCharge host.rules entry scheme s.ledger s.frame + r.gas.toNat =
        s.frame.gas.toNat + (stipend host.rules.gas r.transfersValue).toNat ∧
      s'.frame.gas.toNat + entry.baseGas.toNat + r.gas.toNat ≤ s.frame.gas.toNat := by
  obtain ⟨entry, scheme, sent, rfl, isCall, pays, asked, -⟩ := step_call stepped
  have carries : r.transfersValue =
      transfers scheme (operandsOf scheme s.frame.stack.words).1 := by
    rw [asked]
    rfl
  have covered : entry.baseGas.toNat + (stipend host.rules.gas r.transfersValue).toNat ≤
      callCharge host.rules entry scheme s.ledger s.frame := by
    rw [carries]
    have surcharge := stipend_le_callSurcharge covers s.ledger scheme
      (transfers scheme (operandsOf scheme s.frame.stack.words).1)
      (operandsOf scheme s.frame.stack.words).2.callee
    exact Nat.add_le_add_left (Nat.le_trans surcharge (Nat.le_add_left _ _)) _
  have paid := pays.gas
  have bound := s.frame.gas.toNat_lt_size
  have given : r.gas.toNat = sent.toNat + (stipend host.rules.gas r.transfersValue).toNat := by
    rw [carries] at covered ⊢
    rw [asked]
    exact gas_callRequest _ _ _ _ _ _ _ (by omega)
  exact ⟨entry, scheme, rfl, isCall, carries, by omega, by omega⟩

/-- What a frame asks for it pays for out of its own gas, beside the base price. -/
theorem gas_step_asks {control : Control} {gas : UInt64}
    {action : Journaled (Prepared × ReturnTarget)} (covers : host.rules.gas.CoversStipend)
    (stepped : s.step host fetched = .ok control s')
    (asks : control.Asks host s'.frame.env gas action) :
    ∃ entry, fetched = .instruction entry ∧ entry.opcode.isRequest = true ∧
      s'.frame.gas.toNat + entry.baseGas.toNat + gas.toNat ≤ s.frame.gas.toNat := by
  cases asks with
  | call r =>
      obtain ⟨entry, scheme, fetches, isCall, -, -, lent⟩ := gas_step_call covers stepped
      exact ⟨entry, fetches, by rw [isCall]; rfl, lent⟩
  | create r =>
      obtain ⟨-, entry, scheme, price, fetches, isCreate, base, pays⟩ := step_create stepped
      have paid := pays.gas
      exact ⟨entry, fetches, by rw [isCreate]; rfl, by omega⟩

end Focus

namespace Machine

variable {host : Host} {m m' : Machine}

/-- How an iteration moves gas between the open frames. -/
inductive GasStep : List Frame → List Frame → Prop
  | spends {f f' : Frame} {below : List Frame} (gas : f'.gas ≤ f.gas)
      (limit : f'.gasLimit = f.gasLimit) : GasStep (f :: below) (f' :: below)
  | lends {f f' child : Frame} {below : List Frame}
      (gas : child.gas.toNat + f'.gas.toNat ≤ f.gas.toNat) (full : child.gasLimit = child.gas)
      (limit : f'.gasLimit = f.gasLimit) : GasStep (f :: below) (child :: f' :: below)
  | returns {f parent parent' : Frame} {below : List Frame}
      (gas : parent'.gas.toNat ≤ f.gas.toNat + parent.gas.toNat)
      (limit : parent'.gasLimit = parent.gasLimit) :
      GasStep (f :: parent :: below) (parent' :: below)

theorem Step.gas (covers : host.rules.gas.CoversStipend) (step : Step host m m') :
    GasStep m.frames m'.frames := by
  cases step with
  | ran running stepped quiet =>
      have kept := Focus.Keeps.of_step_ok stepped
      exact .spends kept.gas kept.gasLimit
  | @answered f f₁ f' _ _ _ _ _ _ _ gas _ result _ running stepped asks set absorbed =>
      have kept := Focus.Keeps.of_step_ok stepped
      obtain ⟨_, -, -, lent⟩ := Focus.gas_step_asks covers stepped asks
      have answers := Focus.step_answered stepped asks set
      have left := UInt64.le_iff_toNat_le.mp answers.accounts.gasLeft_le
      have resumes := Frame.absorb_ok absorbed
      have gained := Gas.toNat_satAdd_le f₁.gas result.gasLeft
      refine .spends ?_ (resumes.gasLimit.trans kept.gasLimit)
      rw [resumes.gas, UInt64.le_iff_toNat_le]
      dsimp only at lent
      omega
  | @entered f f₁ child _ _ _ _ _ _ _ gas _ _ running stepped asks set =>
      have kept := Focus.Keeps.of_step_ok stepped
      obtain ⟨_, -, -, lent⟩ := Focus.gas_step_asks covers stepped asks
      obtain ⟨entered, -⟩ := (Focus.step_entered stepped asks set).enters
      obtain ⟨given, full⟩ := entered.gas
      refine .lends ?_ (full.trans given.symm) kept.gasLimit
      rw [given]
      dsimp only at lent
      omega
  | @returned f parent parent' _ _ _ _ result ended completed absorbed =>
      have left := UInt64.le_iff_toNat_le.mp (Frame.gasLeft_complete_le completed)
      have resumes := Frame.absorb_ok absorbed
      have gained := Gas.toNat_satAdd_le parent.gas result.gasLeft
      refine .returns ?_ resumes.gasLimit
      rw [resumes.gas]
      omega

/-- The gas of all frames together. -/
def gasOf (frames : List Frame) : Nat :=
  frames.foldr (fun f sum => f.gas.toNat + sum) 0

def totalGas (m : Machine) : Nat :=
  gasOf m.frames

theorem GasStep.total {frames frames' : List Frame} (h : GasStep frames frames') :
    gasOf frames' ≤ gasOf frames := by
  cases h with
  | spends gas limit =>
      have less := UInt64.le_iff_toNat_le.mp gas
      simp only [gasOf, List.foldr_cons]
      omega
  | lends gas full limit =>
      simp only [gasOf, List.foldr_cons]
      omega
  | returns gas limit =>
      simp only [gasOf, List.foldr_cons]
      omega

/-- Each limit covers the gas of its frame together with that of the frames above it, where more
frames, with so much gas, lie above those given. -/
def Budgeted (above : Nat) : List Frame → Prop
  | [] => True
  | f :: below =>
      above + f.gas.toNat ≤ f.gasLimit.toNat ∧ Budgeted (above + f.gas.toNat) below

theorem Budgeted.mono {frames : List Frame} {above less : Nat} (h : Budgeted above frames)
    (le : less ≤ above) : Budgeted less frames := by
  induction frames generalizing above less with
  | nil => trivial
  | cons f below ih =>
      obtain ⟨top, rest⟩ := h
      exact ⟨by omega, ih rest (by omega)⟩

theorem GasStep.budgeted {frames frames' : List Frame} (h : GasStep frames frames')
    (before : Budgeted 0 frames) : Budgeted 0 frames' := by
  cases h with
  | spends gas limit =>
      have less := UInt64.le_iff_toNat_le.mp gas
      obtain ⟨top, rest⟩ := before
      exact ⟨by rw [limit]; omega, rest.mono (by omega)⟩
  | lends gas full limit =>
      obtain ⟨top, rest⟩ := before
      exact ⟨by rw [full]; omega, by rw [limit]; omega, rest.mono (by omega)⟩
  | returns gas limit =>
      obtain ⟨-, parent, rest⟩ := before
      exact ⟨by rw [limit]; omega, rest.mono (by omega)⟩

theorem Budgeted.within {frames : List Frame} {above : Nat} (h : Budgeted above frames) :
    ∀ f ∈ frames, f.gas ≤ f.gasLimit := by
  induction frames generalizing above with
  | nil => simp
  | cons top below ih =>
      intro f member
      obtain rfl | member := List.mem_cons.mp member
      · have covered := h.1
        rw [UInt64.le_iff_toNat_le]
        omega
      · exact ih h.2 f member

end Machine
end EvmEngine
