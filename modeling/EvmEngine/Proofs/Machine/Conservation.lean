import EvmEngine.Proofs.Machine.WholeCall

/-!
What is known about gas at the head of every iteration of a run, and what a run that is finished
hands back.
-/

namespace EvmEngine
namespace Machine

open Instruction

variable {host : Host} {m m' : Machine}

/-- Gas is conserved in a machine: it stays within the limits and below the gas of the outermost
frame, and every sum and difference that the next iteration makes of it is exact. -/
structure Conserves (host : Host) (root : Frame) (m : Machine) : Prop where
  within : ∀ f ∈ m.frames, f.gas ≤ f.gasLimit
  total : m.totalGas ≤ root.gas.toNat
  decreasing : ∀ m', m.advance host = .more m' → m'.totalGas ≤ m.totalGas
  ended : ∀ f ∈ m.frames, f.result.Accounts f.gasLimit
  completed : ∀ f ∈ m.frames, ∀ result l,
    f.complete host m.ledger = .ok result l → result.Accounts f.gasLimit
  returned : ∀ result receiver, HandsOver host m result receiver →
    (receiver.returnGas result.gasLeft).gas.toNat = receiver.gas.toNat + result.gasLeft.toNat
  asking : ∀ f below r s, m.frames = f :: below →
    Focus.step ⟨f, m.ledger⟩ host (f.fetch host m.watch.interrupted) = .ok (.call r) s →
    ∃ entry scheme, f.fetch host m.watch.interrupted = .instruction entry ∧
      entry.opcode = .call scheme ∧
      s.frame.gas.toNat + callCharge host.rules entry scheme m.ledger f + r.gas.toNat =
        f.gas.toNat + (stipend host.rules.gas r.transfersValue).toNat
  calls : ∀ entry scheme f below last m', WholeCall host entry scheme f below m last m' →
    ∃ f' receiver result, m'.frames = f' :: below ∧ HandsOver host last result receiver ∧
      f'.gas.toNat + callCharge host.rules entry scheme m.ledger f + result.gasUsed.toNat =
        f.gas.toNat + (stipend host.rules.gas
          (transfers scheme (operandsOf scheme f.stack.words).1)).toNat

theorem Budgeted.conserves {root : Frame} (covers : host.rules.gas.CoversStipend)
    (budget : Budgeted 0 m.frames) (total : m.totalGas ≤ root.gas.toNat) :
    Conserves host root m where
  within := budget.within
  total := total
  decreasing := fun m' advanced => ((step_of_more advanced).gas covers).total
  ended := fun f member => Frame.accounts_result (budget.within f member)
  completed := fun f member result l done => Frame.accounts_complete (budget.within f member) done
  returned := fun result receiver hands => hands.gas covers budget
  asking := by
    intro f below r s frames stepped
    obtain ⟨entry, scheme, fetched, isCall, -, paid, -⟩ := Focus.gas_step_call covers stepped
    exact ⟨entry, scheme, fetched, isCall, paid⟩
  calls := fun entry scheme f below last m' whole => whole.gas covers budget

theorem budgeted_root {root : Frame} {l : Ledger} {watch : Watch}
    (full : root.gas ≤ root.gasLimit) :
    Budgeted 0 (Machine.mk l [root] watch).frames ∧
      (Machine.mk l [root] watch).totalGas ≤ root.gas.toNat := by
  have within := UInt64.le_iff_toNat_le.mp full
  refine ⟨⟨by omega, trivial⟩, ?_⟩
  simp [totalGas, gasOf]

theorem conserves_of_iterate {root : Frame} {l : Ledger} {watch : Watch} {n : Nat}
    (covers : host.rules.gas.CoversStipend) (full : root.gas ≤ root.gasLimit)
    (reached : iterate host n ⟨l, [root], watch⟩ = .more m) : Conserves host root m := by
  have kept := (iterate_keeps (m := ⟨l, [root], watch⟩)
    (P := fun m => Budgeted 0 m.frames ∧ m.totalGas ≤ root.gas.toNat)
    (fun _ _ step before =>
      ⟨(step.gas covers).budgeted before.1, Nat.le_trans (step.gas covers).total before.2⟩) n
    (budgeted_root full)).1 m reached
  exact kept.1.conserves covers kept.2

/-- A run that is finished hands back at most the gas of its outermost frame. -/
theorem gasLeft_of_outcome {n : Nat} {result : CallResult}
    (covers : host.rules.gas.CoversStipend)
    (h : (iterate host n m).outcome.result = .ok result) :
    result.gasLeft.toNat ≤ m.totalGas := by
  obtain ⟨last, m', total, done, -⟩ := outcome_ok (P := fun last => last.totalGas ≤ m.totalGas)
    (fun _ _ step before => Nat.le_trans (step.gas covers).total before) (Nat.le_refl _) h
  obtain ⟨f, l, watch, rfl, -, completed⟩ := last_of_finished done
  have left := UInt64.le_iff_toNat_le.mp (Frame.gasLeft_complete_le completed)
  refine Nat.le_trans left (Nat.le_trans ?_ total)
  simp [totalGas, gasOf]

theorem run_gasLeft_le {root : Frame} {l : Ledger} {watch : Watch} {result : CallResult}
    (covers : host.rules.gas.CoversStipend)
    (h : (run host root l watch).result = .ok result) : result.gasLeft ≤ root.gas := by
  have left := gasLeft_of_outcome (n := iterationBound root.gas) covers h
  simpa [UInt64.le_iff_toNat_le, totalGas, gasOf] using left

end Machine
end EvmEngine
