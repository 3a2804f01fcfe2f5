import EvmEngine.Proofs.Instruction.Moves
import EvmEngine.Proofs.Instruction.Requests
import EvmEngine.Proofs.Instruction.Table

/-!
No instruction is free that leaves its frame running. Most have a base price; of those that have none,
a write to storage is paid for once its price is known, and the others end the frame.
-/

namespace EvmEngine

open Effects Exec

/-- Prices under which nothing that can be repeated is free. -/
structure GasSchedule.Charges (gas : GasSchedule) : Prop where
  base (op : Opcode) : op.isTerminating = false → op ≠ .sstore → 0 < op.baseGas gas
  sstoreSet : 0 < gas.sstoreSet
  sstoreReset : 0 < gas.sstoreReset
  sstoreNoop : 0 < gas.sstoreNoop

/-- An instruction that asks for another frame has a base price. -/
theorem GasSchedule.Charges.request {gas : GasSchedule} (charges : gas.Charges) {op : Opcode}
    (request : op.isRequest = true) : 0 < op.baseGas gas := by
  cases op with
  | create | call => exact charges.base _ rfl (by simp)
  | _ => cases request

theorem GasSchedule.baseGas_ofFork (fork : Fork) (op : Opcode)
    (goesOn : op.isTerminating = false) (other : op ≠ .sstore) : 0 < op.baseGas (ofFork fork) := by
  cases op with
  | stop | ret | revert | selfDestruct => cases goesOn
  | sstore => exact absurd rfl other
  | binary op => cases op <;> exact of_decide_eq_true rfl
  | account what => cases what <;> cases fork <;> decide
  | log topics => cases fork <;> revert topics <;> decide
  | unary | ternary | exp | query | selfBalance | callDataLoad | copy | returnDataCopy | pop | mload
  | mstore | mstore8 | jump | jumpIf | jumpDest | push | dup | swap => exact of_decide_eq_true rfl
  | sha3 | extCodeCopy | blockHash | sload | create | call => cases fork <;> exact of_decide_eq_true rfl

theorem GasSchedule.charges_ofFork (fork : Fork) : (ofFork fork).Charges where
  base := baseGas_ofFork fork
  sstoreSet := by cases fork <;> decide
  sstoreReset := by cases fork <;> decide
  sstoreNoop := by cases fork <;> decide

theorem Gas.sstoreCost_pos {rules : Rules} (charges : rules.gas.Charges)
    (initial current new : Word) : 0 < (sstoreCost rules initial current new).gas := by
  have set := charges.sstoreSet
  have reset := charges.sstoreReset
  have noop := charges.sstoreNoop
  simp only [sstoreCost]
  split
  · dsimp only
    split <;> assumption
  all_goals split
  any_goals assumption
  all_goals split
  any_goals assumption
  all_goals split <;> assumption

namespace Exec

/-- An action that, where it succeeds, takes at least so much gas from its frame. -/
def Costs {α : Type} (price : Nat) (x : Exec α) : Prop :=
  ∀ s a s', x s = .ok a s' → s'.frame.gas.toNat + price ≤ s.frame.gas.toNat

/-- An action that, where it succeeds, ends its frame. -/
def Ends {α : Type} (x : Exec α) : Prop :=
  ∀ s a s', x s = .ok a s' → s'.frame.isRunning = false

section
variable {α β : Type} {price : Nat} {x : Exec α} {f : α → Exec β}

theorem costs_of_within (op : Opcode) (within : ∀ env, Within op env x) : Costs 0 x := by
  intro s a s' run
  have moves := (within s.frame.env s rfl).moves
  rw [endState_ok run] at moves
  exact UInt64.le_iff_toNat_le.mp moves.keeps.gas

theorem costs_after (first : Costs 0 x) (next : ∀ a, Costs price (f a)) :
    Costs price (x >>= f) := by
  intro s b s' run
  obtain ⟨a, t, ran, run⟩ := bind_eq_ok.mp run
  exact Nat.le_trans (next a t b s' run) (first s a t ran)

theorem costs_then (first : Costs price x) (next : ∀ a, Costs 0 (f a)) :
    Costs price (x >>= f) := by
  intro s b s' run
  obtain ⟨a, t, ran, run⟩ := bind_eq_ok.mp run
  have before := first s a t ran
  have after := next a t b s' run
  omega

theorem costs_when {c : Prop} [Decidable c] {y : Exec α} {rest : Exec β} (sometimes : Costs 0 y)
    (always : Costs price rest) : Costs price (if c then y >>= fun _ => rest else rest) := by
  split
  · exact costs_after sometimes fun _ => always
  · exact always

theorem costs_frame : Costs 0 frame := by
  intro s a s' run
  cases run
  exact Nat.le_refl _

theorem costs_spend (amount : UInt64) : Costs amount.toNat (spend amount) :=
  fun _ _ _ run => Nat.le_of_eq (spend_ok run).1.gas

theorem ends_bind (next : ∀ a, Ends (f a)) : Ends (x >>= f) := by
  intro s b s' run
  obtain ⟨a, t, -, run⟩ := bind_eq_ok.mp run
  exact next a t b s' run

theorem ends_then {b : β} (first : Ends x) : Ends (x >>= fun _ => pure b) := by
  intro s c s' run
  obtain ⟨a, t, ran, run⟩ := bind_eq_ok.mp run
  obtain ⟨-, rfl⟩ := pure_eq_ok.mp run
  exact first s a t ran

theorem ends_when {c : Prop} [Decidable c] {y : Exec α} {rest : Exec β} (always : Ends rest) :
    Ends (if c then y >>= fun _ => rest else rest) := by
  split
  · exact ends_bind fun _ => always
  · exact always

theorem ends_halted {halt : Halt} (ends : halt ≠ .running) :
    Ends (modifyFrame (·.halted halt)) := by
  intro s a s' run
  cases run
  exact s.frame.isRunning_halted ends

end
end Exec

namespace Instruction

theorem costs_sstore {host : Host} (charges : host.rules.gas.Charges) : Costs 1 (sstore host) := by
  refine costs_after (costs_of_within .sstore fun _ => within_mutable) fun _ => ?_
  refine costs_after (costs_of_within .sstore fun _ => within_ofStack) fun operands => ?_
  refine costs_after costs_frame fun f => ?_
  refine costs_when (costs_of_within .sstore fun _ => within_fail _) ?_
  refine costs_after (costs_of_within .sstore fun _ => within_ledger) fun l => ?_
  refine costs_then (fun s a s' run => ?_) fun _ => ?_
  · have paid := costs_spend _ s a s' run
    have price := UInt64.lt_iff_toNat_lt.mp (Gas.sstoreCost_pos charges
      (l.initialValue f.env.address operands.1) (l.load f.env.address operands.1) operands.2)
    exact Nat.le_trans (Nat.add_le_add_left price _) paid
  · refine costs_after (fun s a s' run => ?_) fun _ => ?_
    · cases run
      exact Nat.le_refl _
    · exact costs_of_within .sstore fun _ => within_store operands.1 operands.2

theorem ends_haltWithOutput (host : Host) {halt : Halt} (ends : halt ≠ .running) :
    Ends (haltWithOutput host halt) :=
  ends_bind fun _ => ends_bind fun _ => ends_bind fun _ => ends_halted ends

theorem ends_selfDestruct (host : Host) : Ends (selfDestruct host) := by
  refine ends_bind fun _ => ends_bind fun word => ends_bind fun f => ends_bind fun l => ?_
  refine ends_when (ends_bind fun _ => ?_)
  dsimp only
  split
  · exact ends_bind fun _ => ends_bind fun _ => ends_halted (by simp)
  · exact ends_halted (by simp)

end Instruction

theorem Opcode.ends_perform (host : Host) {op : Opcode} (terminating : op.isTerminating = true) :
    Ends (op.perform host) := by
  cases op with
  | stop => exact ends_then (ends_halted (by simp))
  | ret => exact ends_then (Instruction.ends_haltWithOutput host (by simp))
  | revert => exact ends_then (Instruction.ends_haltWithOutput host (by simp))
  | selfDestruct => exact ends_then (Instruction.ends_selfDestruct host)
  | _ => cases terminating

theorem OpcodeEntry.gas_of_dispatch {entry : OpcodeEntry} {host : Host} {s t : Focus}
    {control : Control} (charges : host.rules.gas.Charges) (listed : entry.Listed host.rules)
    (ran : entry.dispatch host s = .ok control t) (running : t.frame.isRunning = true) :
    t.frame.gas < s.frame.gas := by
  obtain ⟨-, u, pays, -, -, performed⟩ := entry.dispatch_ok ran
  have paid := pays.gas
  rw [UInt64.lt_iff_toNat_lt]
  cases ends : entry.opcode.isTerminating with
  | true =>
      rw [entry.opcode.ends_perform host ends u control t performed] at running
      cases running
  | false =>
      by_cases store : entry.opcode = .sstore
      · rw [store] at performed
        have costs : Costs 1 (Opcode.sstore.perform host) :=
          costs_then (Instruction.costs_sstore charges) fun _ =>
            costs_of_within .sstore fun _ => within_pure _
        have less := costs u control t performed
        omega
      · have price := UInt64.lt_iff_toNat_lt.mp (listed.baseGas ▸ charges.base _ ends store)
        have less := costs_of_within entry.opcode (fun env => entry.opcode.within_perform host env)
          u control t performed
        have zero : (0 : UInt64).toNat = 0 := rfl
        omega

/-- A step after which the frame still runs has cost gas. -/
theorem Focus.gas_of_step {host : Host} {fetched : Fetched} {control : Control} {s s' : Focus}
    (charges : host.rules.gas.Charges)
    (listed : ∀ entry, fetched = .instruction entry → entry.Listed host.rules)
    (stepped : s.step host fetched = .ok control s') (running : s'.frame.isRunning = true) :
    s'.frame.gas < s.frame.gas := by
  obtain ⟨-, ended⟩ | ⟨entry, t, _, rfl, ran, rfl⟩ := step_cases stepped
  · rw [ended] at running
    cases running
  · have less := entry.gas_of_dispatch charges (listed entry rfl) ran
    exact less running

end EvmEngine
