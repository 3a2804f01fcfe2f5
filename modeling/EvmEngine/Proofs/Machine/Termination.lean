import EvmEngine.Proofs.Instruction.Costs
import EvmEngine.Proofs.Machine.Gas
import EvmEngine.Proofs.Machine.Room

/-!
Every run comes to an end. Under prices that leave nothing free, an iteration spends gas or ends a
frame or finishes one; what is left of the gas thus bounds the number of iterations to come, and the
limit on the iterations of a run is never reached. A run that does not end in a result then ends over
a payment.
-/

namespace EvmEngine

/-- Three for each unit of gas, two as long as the frame runs, and one until it is finished. -/
def Frame.stepsLeft (f : Frame) : Nat :=
  3 * f.gas.toNat + if f.isRunning then 2 else 1

namespace Frame

theorem stepsLeft_le (f : Frame) : f.stepsLeft ≤ 3 * f.gas.toNat + 2 := by
  simp only [stepsLeft]
  split <;> omega

theorem stepsLeft_of_running {f : Frame} (running : f.isRunning = true) :
    f.stepsLeft = 3 * f.gas.toNat + 2 := by
  rw [stepsLeft, if_pos running]

theorem stepsLeft_of_ended {f : Frame} (ended : f.isRunning = false) :
    f.stepsLeft = 3 * f.gas.toNat + 1 := by
  rw [stepsLeft, if_neg (Bool.eq_false_iff.mp ended)]

theorem Resumes.stepsLeft {f f' : Frame} {gasLeft : UInt64} (h : f.Resumes gasLeft f') :
    f'.stepsLeft ≤ f.stepsLeft + 3 * gasLeft.toNat := by
  have gained := Gas.toNat_satAdd_le f.gas gasLeft
  simp only [Frame.stepsLeft]
  rw [h.isRunning, h.gas]
  omega

end Frame

namespace Focus

variable {host : Host} {s s' : Focus} {control : Control} {interrupted : Bool}

theorem stepsLeft_of_step (charges : host.rules.gas.Charges) (running : s.frame.isRunning = true)
    (stepped : s.step host (s.frame.fetch host interrupted) = .ok control s') :
    s'.frame.stepsLeft < s.frame.stepsLeft := by
  rw [Frame.stepsLeft_of_running running]
  cases goesOn : s'.frame.isRunning with
  | true =>
      have less := UInt64.lt_iff_toNat_lt.mp
        (gas_of_step charges (fun _ => Frame.listed_of_fetch) stepped goesOn)
      have bound := s'.frame.stepsLeft_le
      omega
  | false =>
      have less := UInt64.le_iff_toNat_le.mp (Keeps.of_step_ok stepped).gas
      rw [Frame.stepsLeft_of_ended goesOn]
      omega

/-- A request is paid for, beside the gas it is given. -/
theorem gas_of_request {gas : UInt64} {action : Journaled (Prepared × ReturnTarget)}
    (covers : host.rules.gas.CoversStipend) (charges : host.rules.gas.Charges)
    (stepped : s.step host (s.frame.fetch host interrupted) = .ok control s')
    (asks : control.Asks host s'.frame.env gas action) :
    s'.frame.gas.toNat + gas.toNat < s.frame.gas.toNat := by
  obtain ⟨entry, fetched, request, lent⟩ := gas_step_asks covers stepped asks
  have price := charges.request request
  rw [← (Frame.listed_of_fetch fetched).baseGas] at price
  have positive := UInt64.lt_iff_toNat_lt.mp price
  have zero : (0 : UInt64).toNat = 0 := rfl
  omega

end Focus

namespace Machine

variable {host : Host} {m m' : Machine}

/-- A bound on the number of iterations to come. -/
def stepsLeft (m : Machine) : Nat :=
  m.frames.foldr (fun f sum => f.stepsLeft + sum) 0

theorem Step.stepsLeft (covers : host.rules.gas.CoversStipend) (charges : host.rules.gas.Charges)
    (step : Step host m m') : m'.stepsLeft < m.stepsLeft := by
  cases step with
  | ran running stepped quiet =>
      have less := Focus.stepsLeft_of_step charges running stepped
      simp only [Machine.stepsLeft, List.foldr_cons]
      exact Nat.add_lt_add_right less _
  | @answered f f₁ f' _ _ _ _ _ _ _ gas _ result _ running stepped asks set absorbed =>
      have paid := Focus.gas_of_request covers charges stepped asks
      have answers := Focus.step_answered stepped asks set
      have left := UInt64.le_iff_toNat_le.mp answers.accounts.gasLeft_le
      have resumed := (Frame.absorb_ok absorbed).stepsLeft
      have bound := f₁.stepsLeft_le
      have before := Frame.stepsLeft_of_running running
      simp only [Machine.stepsLeft, List.foldr_cons]
      dsimp only at paid
      omega
  | @entered f f₁ child _ _ _ _ _ _ _ gas _ _ running stepped asks set =>
      have paid := Focus.gas_of_request covers charges stepped asks
      obtain ⟨entered, -⟩ := (Focus.step_entered stepped asks set).enters
      have bound := f₁.stepsLeft_le
      have fresh := child.stepsLeft_le
      have before := Frame.stepsLeft_of_running running
      rw [entered.gas.1] at fresh
      simp only [Machine.stepsLeft, List.foldr_cons]
      dsimp only at paid
      omega
  | @returned f parent parent' _ _ _ _ result ended completed absorbed =>
      have left := UInt64.le_iff_toNat_le.mp (Frame.gasLeft_complete_le completed)
      have resumed := (Frame.absorb_ok absorbed).stepsLeft
      have before := Frame.stepsLeft_of_ended ended
      simp only [Machine.stepsLeft, List.foldr_cons]
      omega

theorem stepsLeft_of_iterate {n : Nat} (covers : host.rules.gas.CoversStipend)
    (charges : host.rules.gas.Charges) (reached : iterate host n m = .more m') :
    m'.stepsLeft + n ≤ m.stepsLeft := by
  induction n generalizing m with
  | zero =>
      cases reached
      exact Nat.le_refl _
  | succ n ih =>
      simp only [iterate] at reached
      split at reached
      · next next advanced =>
          have first := (step_of_more advanced).stepsLeft covers charges
          have rest := ih reached
          omega
      · next other stops => exact (stops m' reached).elim

theorem stepsLeft_pos (h : m.frames ≠ []) : 0 < m.stepsLeft := by
  obtain ⟨f, below, frames⟩ := List.exists_cons_of_ne_nil h
  simp only [stepsLeft, frames, List.foldr_cons, Frame.stepsLeft]
  split <;> omega

/-- A run from one frame is over after three iterations for each unit of gas and two more. -/
theorem iterate_ends {root : Frame} {l : Ledger} {watch : Watch} {n : Nat}
    (covers : host.rules.gas.CoversStipend) (charges : host.rules.gas.Charges)
    (enough : 3 * root.gas.toNat + 2 ≤ n) : iterate host n ⟨l, [root], watch⟩ ≠ .more m' := by
  intro reached
  have nonempty := (iterate_keeps (m := ⟨l, [root], watch⟩) (P := fun m => m.frames ≠ [])
    (fun _ _ step _ => step.open) n (List.cons_ne_nil _ _)).1 m' reached
  have positive := stepsLeft_pos nonempty
  have bound := stepsLeft_of_iterate covers charges reached
  have start := root.stepsLeft_le
  simp only [stepsLeft, List.foldr_cons, List.foldr_nil] at bound positive
  omega

/-- A run only fails where a credit does not fit, and then the balances before it do not fit a word
together. -/
theorem run_overflows {root : Frame} {l : Ledger} {watch : Watch} {start : World}
    {base : List World} {e : EngineError} (covers : host.rules.gas.CoversStipend)
    (charges : host.rules.gas.Charges) (sound : Sound start base ⟨l, [root], watch⟩)
    (failed : (run host root l watch).result = .error e) : e.Overflows start := by
  simp only [run] at failed
  have enough : 3 * root.gas.toNat + 2 ≤ iterationBound root.gas :=
    Nat.add_le_add_left (by decide) _
  generalize iterationBound root.gas = n at failed enough
  obtain ⟨last, unfinished⟩ | ⟨last, m', soundly, done⟩ :=
    outcome_error (fun _ _ step => step.sound) sound failed
  · exact absurd unfinished (iterate_ends covers charges enough)
  · exact soundly.overflows done

/-- An iteration in which the innermost frame runs on lowers the gas of all frames together, also
where it enters another frame or goes on with the answer to what it asked. -/
theorem Step.totalGas_lt {f : Frame} {below : List Frame} {s : Focus} {control : Control}
    (covers : host.rules.gas.CoversStipend) (charges : host.rules.gas.Charges)
    (step : Step host m m') (frames : m.frames = f :: below) (running : f.isRunning = true)
    (stepped : Focus.step ⟨f, m.ledger⟩ host (f.fetch host m.watch.interrupted) = .ok control s)
    (goesOn : s.frame.isRunning = true) : m'.totalGas < m.totalGas := by
  cases step with
  | ran _ ran quiet =>
      cases frames
      cases ran.symm.trans stepped
      have less := UInt64.lt_iff_toNat_lt.mp
        (Focus.gas_of_step charges (fun _ => Frame.listed_of_fetch) stepped goesOn)
      simp only [totalGas, gasOf, List.foldr_cons]
      exact Nat.add_lt_add_right less _
  | @answered _ f₁ f' _ _ _ _ _ _ _ gas _ result _ _ ran asks set absorbed =>
      cases frames
      have paid := Focus.gas_of_request covers charges ran asks
      have answers := Focus.step_answered ran asks set
      have left := UInt64.le_iff_toNat_le.mp answers.accounts.gasLeft_le
      have gained := Gas.toNat_satAdd_le f₁.gas result.gasLeft
      rw [← (Frame.absorb_ok absorbed).gas] at gained
      simp only [totalGas, gasOf, List.foldr_cons]
      dsimp only at paid
      omega
  | @entered _ f₁ child _ _ _ _ _ _ _ gas _ _ _ ran asks set =>
      cases frames
      have paid := Focus.gas_of_request covers charges ran asks
      obtain ⟨entered, -⟩ := (Focus.step_entered ran asks set).enters
      simp only [totalGas, gasOf, List.foldr_cons]
      rw [entered.gas.1]
      dsimp only at paid
      omega
  | returned ended completed absorbed =>
      cases frames
      rw [running] at ended
      cases ended

/-- A run that is over after so many iterations stays as it is when it is given more. -/
theorem iterate_of_over {n : Nat} (ended : ∀ m', iterate host n m ≠ .more m') (extra : Nat) :
    iterate host (n + extra) m = iterate host n m := by
  induction n generalizing m with
  | zero => exact absurd rfl (ended m)
  | succ n ih =>
      rw [Nat.succ_add]
      simp only [iterate] at ended ⊢
      cases advanced : m.advance host with
      | more next =>
          simp only [advanced] at ended
          exact ih ended
      | finished | failed => rfl

/-- Under the rules of an upgrade a run comes to its result or its error within three iterations for
each unit of gas and two more. Whatever is called, created and handed back on the way, an iteration
that does not end the frame it runs takes gas from all frames together. -/
theorem run_bounded_by_gas (fork : Fork) (blockHash : UInt64 → Option Hash) (root : Frame)
    (ledger : Ledger) (watch : Watch) :
    let host := Host.ofRules (.ofFork fork) blockHash
    let start : Machine := ⟨ledger, [root], watch⟩
    let bound := 3 * root.gas.toNat + 2
    ((∃ result last, iterate host bound start = .finished result last) ∨
      ∃ e last, iterate host bound start = .failed e last) ∧
    run host root ledger watch = (iterate host bound start).outcome ∧
    ∀ (n : Nat) (m m' : Machine) (f : Frame) (below : List Frame) (control : Control) (s : Focus),
      iterate host n start = .more m → m.frames = f :: below → f.isRunning = true →
      Focus.step ⟨f, m.ledger⟩ host (f.fetch host m.watch.interrupted) = .ok control s →
      s.frame.isRunning = true → m.advance host = .more m' → m'.totalGas + 1 ≤ m.totalGas := by
  intro host start bound
  have covers : host.rules.gas.CoversStipend := GasSchedule.coversStipend_ofFork fork
  have charges : host.rules.gas.Charges := GasSchedule.charges_ofFork fork
  have complete (m' : Machine) : iterate host bound start ≠ .more m' :=
    iterate_ends covers charges (Nat.le_refl _)
  refine ⟨?_, ?_, ?_⟩
  · cases ended : iterate host bound start with
    | more m' => exact absurd ended (complete m')
    | finished result last => exact .inl ⟨result, last, rfl⟩
    | failed e last => exact .inr ⟨e, last, rfl⟩
  · obtain ⟨extra, more⟩ : ∃ extra, iterationBound root.gas = bound + extra :=
      Nat.exists_eq_add_of_le (Nat.add_le_add_left (by decide) _)
    rw [run, more, iterate_of_over complete extra]
  · intro n m m' f below control s _ frames running stepped goesOn advanced
    exact (step_of_more advanced).totalGas_lt covers charges frames running stepped goesOn

end Machine
end EvmEngine
