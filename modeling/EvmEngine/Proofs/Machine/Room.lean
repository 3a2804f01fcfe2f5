import EvmEngine.Proofs.Instruction.Table
import EvmEngine.Proofs.Machine.Growth
import EvmEngine.Proofs.Machine.History

/-!
What can stop a run. A frame that runs holds no more words than a stack takes, and one that waits has
room for the word that will tell it the outcome; an account that is being created is there until the
frame that creates it is finished. So nothing in an iteration can fail but a payment to an account
whose balance has no room for it.
-/

namespace EvmEngine

open Effects

theorem Stack.require_ok {s : Stack} {inputs outputs : Nat} {u : Unit}
    (h : s.require inputs outputs = .ok u) :
    inputs ≤ s.size ∧ (s.size - inputs + outputs) % UInt64.size ≤ capacity := by
  simp only [require] at h
  split at h
  · cases h
  · next enough =>
      split at h
      · cases h
      · next room => exact ⟨Nat.not_lt.mp enough, Nat.not_lt.mp room⟩

/-- An instruction leaves no more words than a stack takes: what it adds has been checked before, and
one that asks for a frame adds nothing itself. -/
theorem OpcodeEntry.size_of_dispatch {entry : OpcodeEntry} {host : Host} {s t : Focus}
    {control : Control} (listed : entry.Listed host.rules)
    (few : s.frame.stack.size ≤ Stack.capacity) (ran : entry.dispatch host s = .ok control t) :
    t.frame.stack.size ≤ Stack.capacity := by
  obtain ⟨required, -⟩ := entry.dispatch_ok ran
  obtain ⟨-, room⟩ := Stack.require_ok required
  obtain ⟨-, taken, left, rest, before, after, count, given⟩ :=
    entry.nets_dispatch host s control t ran
  have bounded := entry.opcode.leaves_le
  have size : s.frame.stack.size = entry.opcode.inputs + rest.length := by
    simp only [Stack.size, before, List.length_append, count]
  have size' : t.frame.stack.size = entry.opcode.leaves + rest.length := by
    simp only [Stack.size, after, List.length_append, given]
  split at bounded
  · omega
  · next quiet =>
      have leaves : entry.opcode.leaves = entry.outputs := by
        rw [Opcode.leaves, if_neg quiet, listed.outputs]
      have small : Stack.capacity + 1 < UInt64.size := by decide
      rw [listed.inputs, size, Nat.mod_eq_of_lt (by omega)] at room
      omega

namespace Focus

variable {host : Host} {s s' : Focus} {control : Control} {fetched : Fetched}

theorem held_le_of_step (listed : ∀ entry, fetched = .instruction entry → entry.Listed host.rules)
    (few : s.frame.stack.size ≤ Stack.capacity) (stepped : s.step host fetched = .ok control s') :
    s'.frame.held ≤ Stack.capacity := by
  obtain ⟨-, ended⟩ | ⟨entry, t, _, rfl, ran, rfl⟩ := step_cases stepped
  · rw [Frame.held_of_ended ended]
    exact Nat.zero_le _
  · have room := entry.size_of_dispatch (listed entry rfl) few ran
    exact Nat.le_trans (Frame.held_le _) room

end Focus

namespace Machine

variable {host : Host} {m m' : Machine}

/-- The innermost frame holds no more words than a stack takes, and the others have room for one
more. -/
def Roomy : List Frame → Prop
  | [] => True
  | f :: below => f.held ≤ Stack.capacity ∧ ∀ g ∈ below, g.stack.size < Stack.capacity

theorem Roomy.running {f : Frame} {below : List Frame} (h : Roomy (f :: below))
    (running : f.isRunning = true) : f.stack.size ≤ Stack.capacity :=
  Frame.held_of_running running ▸ h.1

theorem Step.roomy (step : Step host m m') (h : Roomy m.frames) : Roomy m'.frames := by
  cases step with
  | @ran f _ _ _ _ _ _ _ running stepped quiet =>
      have few := h.running running
      exact ⟨Focus.held_le_of_step (fun _ => Frame.listed_of_fetch) few stepped, h.2⟩
  | @answered f f₁ f' _ _ _ _ _ _ _ _ _ _ _ running stepped asks set absorbed =>
      have few := h.running running
      have taken := Focus.size_of_step stepped asks
      have added := (Frame.absorb_ok absorbed).held
      have rest := f₁.held_le
      dsimp only at taken
      exact ⟨by omega, h.2⟩
  | @entered f f₁ child _ _ _ _ _ _ _ _ _ _ running stepped asks set =>
      have few := h.running running
      have taken := Focus.size_of_step stepped asks
      obtain ⟨entered, -⟩ := (Focus.step_entered stepped asks set).enters
      have fresh := entered.held
      dsimp only at taken
      exact ⟨by omega, List.forall_mem_cons.mpr ⟨by omega, h.2⟩⟩
  | @returned f parent parent' _ _ _ _ _ ended completed absorbed =>
      obtain ⟨room, rest⟩ := List.forall_mem_cons.mp h.2
      have added := (Frame.absorb_ok absorbed).held
      have held := parent.held_le
      exact ⟨by omega, rest⟩

/-- What is known of a run as long as it goes on: some frame is open, there is room on the stacks, and
the worlds that can be gone back to lie on one line of writes. -/
structure Sound (start : World) (base : List World) (m : Machine) : Prop where
  nonempty : m.frames ≠ []
  roomy : Roomy m.frames
  traced : Traced start base m.frames m.ledger.world m.ledger.saved

theorem Step.sound {start : World} {base : List World} (step : Step host m m')
    (h : Sound start base m) : Sound start base m' :=
  ⟨step.open, step.roomy h.roomy, step.traced h.traced⟩

section
variable {start : World} {base : List World} {f parent parent' : Frame} {below : List Frame}
  {l l' : Ledger} {watch : Watch}

/-- A frame can be finished: the account whose code is deposited is there since it was entered. -/
theorem Sound.completes (h : Sound start base ⟨l, f :: below, watch⟩) (host : Host) :
    ∃ result l', f.complete host l = .ok result l' := by
  have traced := h.traced
  obtain ⟨w, rest, saved⟩ := traced.saved_eq
  rw [saved] at traced
  cases completed : f.complete host l with
  | ok result l' => exact ⟨result, l', rfl⟩
  | error e l' =>
      obtain ⟨-, a, target, absent⟩ := (Frame.complete_ensures saved).error completed
      have held := traced.2.1 a target
      rw [absent] at held
      cases held

/-- A frame that waits can be told the outcome. -/
theorem Sound.absorbs (h : Sound start base ⟨l, f :: parent :: below, watch⟩)
    (result : CallResult) (target : ReturnTarget) :
    ∃ parent', Frame.absorb result target parent = .ok () parent' := by
  have room := (List.forall_mem_cons.mp h.roomy.2).1
  cases absorbed : Frame.absorb result target parent with
  | ok _ parent' => exact ⟨parent', rfl⟩
  | error cause parent' =>
      have full := Frame.absorb_eq_error absorbed
      omega

end

/-- An iteration of such a run only fails where a credit does not fit, and then the balances at the
start do not fit a word together. -/
theorem Sound.overflows {start : World} {base : List World} {e : EngineError}
    (h : Sound start base m) (done : m.advance host = .failed e m') : e.Overflows start := by
  have traced := h.traced
  cases failure_of_failed done with
  | noFrame => exact absurd rfl h.nonempty
  | stopped running stepped =>
      exact ((Focus.step_edits _ host _).error stepped).before traced.writes
  | refused running stepped asks failed =>
      have writes := (Focus.step_edits _ host _).ok stepped
      have refused := ((Focus.step_prepares stepped asks).error failed).2
      exact refused.before (traced.writes.trans writes)
  | @answered f f₁ _ _ _ _ _ _ _ _ _ _ _ _ _ running stepped asks set refused =>
      -- A frame that asks has taken three words from its stack.
      have few := h.roomy.running running
      have taken := Focus.size_of_step stepped asks
      have full := Frame.absorb_eq_error refused
      dsimp only at taken
      omega
  | unfinished failed =>
      obtain ⟨result, l', completed⟩ := h.completes host
      cases completed.symm.trans failed
  | returned completed refused =>
      obtain ⟨parent', absorbed⟩ := h.absorbs _ _
      cases absorbed.symm.trans refused

theorem sound_root {root : Frame} {l : Ledger} {watch : Watch} {start : World} {base : List World}
    (room : root.held ≤ Stack.capacity) (saved : l.saved = start :: base)
    (writes : World.Writes start l.world) (held : root.Held l.world) :
    Sound start base ⟨l, [root], watch⟩ :=
  ⟨List.cons_ne_nil _ _, ⟨room, by simp⟩, traced_root saved writes held⟩

end Machine
end EvmEngine
