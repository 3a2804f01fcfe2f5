import EvmEngine.Proofs.Machine.Checkpoints

/-!
How many frames a run of so many iterations can have open. An instruction adds at most one word to
a stack, and one that asks for a frame takes at least three, so that each open frame has been paid
for by four iterations. Gas plays no part in this.
-/

namespace EvmEngine

open Effects

/-- The words held by a frame that is still running. -/
def Frame.held (f : Frame) : Nat :=
  if f.isRunning then f.stack.size else 0

namespace Frame

theorem held_le (f : Frame) : f.held ≤ f.stack.size := by
  simp only [held]
  split
  · exact Nat.le_refl _
  · exact Nat.zero_le _

theorem held_of_running {f : Frame} (running : f.isRunning = true) : f.held = f.stack.size :=
  if_pos running

theorem held_of_ended {f : Frame} (ended : f.isRunning = false) : f.held = 0 :=
  if_neg (Bool.eq_false_iff.mp ended)

theorem Resumes.held {f f' : Frame} {gasLeft : UInt64} (h : f.Resumes gasLeft f') :
    f'.held ≤ f.held + 1 := by
  obtain ⟨flag, words⟩ := h.stack
  simp only [Frame.held]
  rw [h.isRunning]
  split
  · simp only [Stack.size, words, List.length_cons, Nat.le_refl]
  · exact Nat.zero_le _

end Frame

namespace Focus

variable {host : Host} {fetched : Fetched} {control : Control} {s s' : Focus}

theorem held_of_step (stepped : s.step host fetched = .ok control s')
    (quiet : control.isRequest = false) : s'.frame.held ≤ s.frame.stack.size + 1 := by
  obtain ⟨-, ended⟩ | ⟨entry, t, _, rfl, ran, rfl⟩ := step_cases stepped
  · rw [Frame.held_of_ended ended]
    exact Nat.zero_le _
  · obtain ⟨same, taken, left, rest, before, after, count, given⟩ :=
      entry.nets_dispatch host s _ t ran
    have bounded := entry.opcode.leaves_le
    rw [same] at quiet
    simp only [quiet, Bool.false_eq_true, if_false] at bounded
    refine Nat.le_trans (Frame.held_le _) ?_
    show t.frame.stack.size ≤ s.frame.stack.size + 1
    simp only [Stack.size, before, after, List.length_append]
    omega

theorem size_of_step {gas : UInt64} {action : Journaled (Prepared × ReturnTarget)}
    (stepped : s.step host fetched = .ok control s')
    (asks : control.Asks host s'.frame.env gas action) :
    s'.frame.stack.size + 3 ≤ s.frame.stack.size := by
  have request : control.isRequest = true := by
    cases asks <;> rfl
  obtain ⟨entry, t, rfl, dispatched, rfl⟩ := step_request request stepped
  obtain ⟨same, taken, left, rest, before, after, count, given⟩ :=
    entry.nets_dispatch host s _ t dispatched
  have bounded := entry.opcode.leaves_le
  rw [same] at request
  simp only [request, if_true] at bounded
  show t.frame.stack.size + 3 ≤ s.frame.stack.size
  simp only [Stack.size, before, after, List.length_append]
  omega

end Focus

theorem Frame.Entered.held {host : Host} {env : Environment} {gas : UInt64} {child : Frame}
    (h : child.Entered host env gas) : child.held = 0 := by
  rw [h.fresh]
  rfl

namespace Machine

variable {host : Host} {m m' : Machine}

/-- Four for each open frame, and the words held. -/
def weight (m : Machine) : Nat :=
  m.frames.foldr (fun f sum => 4 + f.held + sum) 0

theorem length_le_weight (m : Machine) : 4 * m.frames.length ≤ m.weight := by
  simp only [weight]
  induction m.frames with
  | nil => exact Nat.le_refl _
  | cons f below ih =>
      simp only [List.length_cons, List.foldr_cons]
      omega

theorem Step.weight (step : Step host m m') : m'.weight ≤ m.weight + 1 := by
  cases step with
  | @ran f f' below _ _ _ _ _ running stepped quiet =>
      have added := Focus.held_of_step stepped quiet
      have held := Frame.held_of_running running
      simp only [Machine.weight, List.foldr_cons]
      dsimp only at added
      omega
  | @answered f f₁ f' below _ _ _ _ _ _ _ _ _ _ running stepped asks set absorbed =>
      have taken := Focus.size_of_step stepped asks
      have added := (Frame.absorb_ok absorbed).held
      have held := Frame.held_of_running running
      have rest := f₁.held_le
      simp only [Machine.weight, List.foldr_cons]
      dsimp only at taken
      omega
  | @entered f f₁ child below _ _ _ _ _ _ _ _ _ running stepped asks set =>
      have taken := Focus.size_of_step stepped asks
      obtain ⟨entered, -⟩ := (Focus.step_entered stepped asks set).enters
      have held := Frame.held_of_running running
      have rest := f₁.held_le
      have fresh := entered.held
      simp only [Machine.weight, List.foldr_cons]
      dsimp only at taken
      omega
  | @returned f parent parent' below _ _ _ _ ended completed absorbed =>
      have added := (Frame.absorb_ok absorbed).held
      simp only [Machine.weight, List.foldr_cons]
      omega

theorem weight_of_iterate {n : Nat} (reached : iterate host n m = .more m') :
    m'.weight ≤ m.weight + n := by
  induction n generalizing m with
  | zero =>
      cases reached
      exact Nat.le_refl _
  | succ n ih =>
      simp only [iterate] at reached
      split at reached
      · next next advanced =>
          have first := (step_of_more advanced).weight
          have rest := ih reached
          omega
      · next other stops =>
          exact (stops m' reached).elim

end Machine
end EvmEngine
