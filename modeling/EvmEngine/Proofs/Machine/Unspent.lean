import EvmEngine.Proofs.Machine.StackSafety
import EvmEngine.Proofs.Machine.Termination

/-!
A run that has spent nothing has returned nothing. The first instruction finds no operands, so it
either costs gas or ends the frame before there is any output.
-/

namespace EvmEngine

open Effects

theorem Exec.output_of_pushWord {w : Word} {u : Unit} {s t : Focus}
    (h : pushWord w s = .ok u t) : t.frame.output = s.frame.output := by
  simp only [pushWord, onStack] at h
  split at h <;> cases h
  rfl

theorem Frame.output_halted (f : Frame) (halt : Halt) : (f.halted halt).output = f.output := by
  simp only [halted]
  split <;> rfl

/-- An instruction that takes no operands leaves the output of its frame alone. -/
theorem Opcode.output_of_perform {op : Opcode} {host : Host} {control : Control} {s t : Focus}
    (bare : op.inputs = 0) (ran : op.perform host s = .ok control t) :
    t.frame.output = s.frame.output := by
  cases op with
  | stop =>
      cases ran
      exact s.frame.output_halted .stopped
  | jumpDest =>
      cases ran
      rfl
  | query =>
      obtain ⟨_, _, read, ran⟩ := bind_eq_ok.mp ran
      cases read
      obtain ⟨_, _, pushed, ran⟩ := bind_eq_ok.mp ran
      cases ran
      exact Exec.output_of_pushWord pushed
  | selfBalance =>
      obtain ⟨_, _, held, ran⟩ := bind_eq_ok.mp ran
      cases held
      obtain ⟨_, _, read, ran⟩ := bind_eq_ok.mp ran
      cases read
      obtain ⟨_, _, pushed, ran⟩ := bind_eq_ok.mp ran
      cases ran
      exact Exec.output_of_pushWord pushed
  | push =>
      obtain ⟨_, _, read, ran⟩ := bind_eq_ok.mp ran
      cases read
      obtain ⟨_, t, pushed, ran⟩ := bind_eq_ok.mp ran
      cases ran
      exact Exec.output_of_pushWord (t := t) pushed
  | create scheme => cases scheme <;> cases bare
  | call scheme => cases scheme <;> cases bare
  | _ => cases bare

theorem Exec.output_of_spend {amount : UInt64} {u : Unit} {s t : Focus}
    (h : spend amount s = .ok u t) : t.frame.output = s.frame.output := by
  simp only [spend, onFrame] at h
  split at h
  · next paid =>
      cases h
      obtain ⟨-, rfl⟩ := Frame.spend_eq_ok.mp paid
      rfl
  · cases h

namespace Focus

variable {s s' : Focus} {host : Host} {fetched : Fetched} {control : Control}

/-- A step that finds no operands and ends its frame with success leaves the output alone. -/
theorem output_of_step (listed : ∀ entry, fetched = .instruction entry → entry.Listed host.rules)
    (stepped : s.step host fetched = .ok control s')
    (bare : s.frame.stack.words = []) (running : s.frame.isRunning = true)
    (success : s'.frame.result.success = true) : s'.frame.output = s.frame.output := by
  have faulted (f : Frame) (cause : Fault) (runs : f.isRunning = true) :
      (f.halted (.faulted cause)).result.success = false := by
    simp only [Frame.halted, runs, if_true, Frame.result]
    rfl
  cases fetched with
  | interrupted | illegal =>
      cases stepped
      exact absurd ((faulted _ _ running).symm.trans success) Bool.false_ne_true
  | endOfCode =>
      cases stepped
      exact s.frame.output_halted .stopped
  | instruction entry =>
      simp only [step] at stepped
      split at stepped
      · next ran =>
          obtain ⟨-, taken, left, rest, before, -, count, -⟩ := entry.nets_dispatch host s _ _ ran
          rw [bare] at before
          obtain ⟨rfl, -⟩ := List.append_eq_nil_iff.mp before.symm
          obtain ⟨-, t, spent, performed⟩ := entry.dispatch_runs ran
          have same := (Opcode.output_of_perform count.symm performed).trans
            (Exec.output_of_spend spent)
          cases stepped
          split <;> exact same
      · next cause t failed =>
          cases stepped
          have few : s.frame.stack.size + 1 < UInt64.size := by
            rw [Stack.size, bare]
            decide
          have runs := (entry.dispatch_refused (listed entry rfl) running few failed).1
          exact absurd ((faulted _ _ runs).symm.trans success) Bool.false_ne_true
      · cases stepped

end Focus

/-- A frame that is about to run its first instruction. -/
structure Frame.Fresh (f : Frame) : Prop where
  running : f.isRunning = true
  bare : f.stack.words = []
  silent : f.output.size = 0
  full : f.gas = f.gasLimit

theorem Frame.fresh_start (env : Environment) (target : ReturnTarget) (code : ByteArray)
    (gas : UInt64) : (start env target code gas).Fresh :=
  ⟨rfl, rfl, rfl, rfl⟩

namespace Machine

variable {host : Host} {m m' : Machine} {root : Frame}

/-- A run from a frame has spent gas, or it has not begun, or it is over and has no new output. -/
inductive Unspent (root : Frame) (m : Machine) : Prop
  | spent (less : m.totalGas < root.gas.toNat)
  | fresh (frames : m.frames = [root])
  | ended {c : Frame} (frames : m.frames = [c]) (stopped : c.isRunning = false)
      (same : c.result.success = true → c.output = root.output)

theorem Step.unspent (covers : host.rules.gas.CoversStipend) (charges : host.rules.gas.Charges)
    (start : root.Fresh) (step : Step host m m') (h : Unspent root m) : Unspent root m' := by
  cases h with
  | spent less => exact .spent (Nat.lt_of_le_of_lt (step.gas covers).total less)
  | fresh frames =>
      have first {f : Frame} {below : List Frame} (same : m.frames = f :: below) :
          f = root ∧ below = [] := List.cons.inj (same.symm.trans frames)
      cases step with
      | @ran f f' below l _ watch _ _ runs stepped quiet =>
          obtain ⟨rfl, rfl⟩ := first rfl
          cases goesOn : f'.isRunning with
          | true =>
              have less := UInt64.lt_iff_toNat_lt.mp
                (Focus.gas_of_step charges (fun _ => Frame.listed_of_fetch) stepped goesOn)
              exact .spent (by simpa [totalGas, gasOf] using less)
          | false =>
              refine .ended rfl goesOn fun success => ?_
              exact Focus.output_of_step (fun _ => Frame.listed_of_fetch) stepped start.bare runs
                success
      | answered runs stepped asks | entered runs stepped asks =>
          -- Whoever asks for another frame has three words for it.
          obtain ⟨rfl, rfl⟩ := first rfl
          have three := Focus.size_of_step stepped asks
          simp only [Stack.size, start.bare, List.length_nil] at three
          omega
      | returned ended completed absorbed => cases frames
  | ended frames stopped same =>
      cases step with
      | ran runs | answered runs | entered runs =>
          cases frames
          exact absurd (stopped.symm.trans runs) Bool.false_ne_true
      | returned => cases frames

/-- Where only a last frame is left and has ended with success, gas was spent or there is no
output. -/
theorem Unspent.last {c : Frame} (h : Unspent root m) (start : root.Fresh)
    (frames : m.frames = [c]) (stopped : c.isRunning = false) (success : c.result.success = true) :
    c.gas.toNat < root.gas.toNat ∨ c.output.size = 0 := by
  cases h with
  | spent less => exact .inl (by simpa [totalGas, gasOf, frames] using less)
  | fresh fresh =>
      cases frames.symm.trans fresh
      exact absurd (stopped.symm.trans start.running) Bool.false_ne_true
  | ended alone _ same =>
      cases frames.symm.trans alone
      exact .inr (same success ▸ start.silent)

end Machine
end EvmEngine
