import EvmEngine.Proofs.Exec.Arity
import EvmEngine.Proofs.Instruction.Moves

/-!
Actions that never run out of stack. Where the words that an action takes are there and there is room
for those that it leaves, it does not fail over the stack, and if it fails over anything else the
frame still runs and no more is gone from its stack than the words it was to take.
-/

namespace EvmEngine

open Effects

/-- A fault over the number of words on the stack. -/
def Fault.isOfStack : Fault → Bool
  | stackTooSmall _ _ | stackOverflow => true
  | _ => false

def EngineError.isOfStack : EngineError → Bool
  | fault cause => cause.isOfStack
  | _ => false

/-- How an action that failed leaves the frame it began in. -/
structure Focus.Refused (takes : Nat) (s : Focus) (e : EngineError) (t : Focus) : Prop where
  cause : e.isOfStack = false
  running : t.frame.isRunning = true
  stack : ∃ taken, taken ≤ takes ∧ t.frame.stack.words = s.frame.stack.words.drop taken

/-- A frame that runs, with words to take and with room for those that are left in their place. -/
structure Frame.Provides (takes leaves : Nat) (f : Frame) : Prop where
  running : f.isRunning = true
  enough : takes ≤ f.stack.size
  room : leaves ≠ 0 → f.stack.size - takes + leaves ≤ Stack.capacity

theorem Stack.push_of_room {stack : Stack} {w : Word} (room : stack.size < capacity) :
    stack.push w = .ok ⟨w :: stack.words⟩ := by
  simp only [push, if_neg (Nat.not_le.mpr room)]

theorem Frame.spend_error {f : Frame} {amount : UInt64} {cause : Fault}
    (h : f.spend amount = .error cause) : cause = .outOfGas := by
  simp only [spend] at h
  split at h <;> cases h
  rfl

theorem Frame.chargeMemory_error {f : Frame} {offset length : Word} {gas : GasSchedule}
    {cause : Fault} (h : f.chargeMemory offset length gas = .error cause) : cause = .outOfGas := by
  simp only [chargeMemory] at h
  split at h
  · cases h
  · split at h
    · cases h
      rfl
    · simp only [bind, Except.bind] at h
      split at h
      · next spent =>
          cases h
          exact spend_error spent
      · cases h

theorem Focus.Refused.before {first takes : Nat} {s t u : Focus} {e : EngineError}
    (h : t.Refused takes e u)
    (taken : t.frame.stack.words = s.frame.stack.words.drop first) :
    s.Refused (takes + first) e u := by
  obtain ⟨count, bound, words⟩ := h.stack
  refine ⟨h.cause, h.running, first + count, by omega, ?_⟩
  rw [words, taken, List.drop_drop]

namespace Exec

/-- An action that is safe wherever the frame provides for it. Its answer tells whether the frame
goes on. -/
def Safe {α : Type} (takes leaves : Nat) (goesOn : α → Bool) (x : Exec α) : Prop :=
  ∀ s : Focus, s.frame.Provides takes leaves →
    Ensures x s (fun a t => t.frame.isRunning = goesOn a) (s.Refused takes)

/-- A safe action that only takes words, after which the frame goes on. -/
structure Draws {α : Type} (count : Nat) (x : Exec α) : Prop where
  takes : Takes count x
  safe : Safe count 0 (fun _ => true) x

section
variable {α β : Type} {goesOn : β → Bool}

theorem Takes.words {count : Nat} {x : Exec α} (h : Takes count x) {s t : Focus} {a : α}
    (run : x s = .ok a t) : t.frame.stack.words = s.frame.stack.words.drop count := by
  obtain ⟨-, taken, left, rest, before, after, taken_length, left_length⟩ := h s a t run
  obtain rfl := List.length_eq_zero_iff.mp left_length
  rw [before, after, ← taken_length, List.drop_left, List.nil_append]

/-- First an action that only takes words, then another, which is provided for by what is left. -/
theorem safe_bind {first takes leaves : Nat} {x : Exec α} {f : α → Exec β} (hx : Draws first x)
    (hf : ∀ a, Safe takes leaves goesOn (f a)) : Safe (takes + first) leaves goesOn (x >>= f) := by
  intro s provides
  have before : s.frame.Provides first 0 :=
    ⟨provides.running, Nat.le_trans (Nat.le_add_left _ _) provides.enough,
      fun none => absurd rfl none⟩
  cases run : x s with
  | error e t =>
      obtain ⟨cause, running, taken, bound, words⟩ := (hx.safe s before).error run
      exact .of_error (bind_of_error run) ⟨cause, running, taken, by omega, words⟩
  | ok a t =>
      have words := hx.takes.words run
      have size : t.frame.stack.size = s.frame.stack.size - first := by
        rw [Stack.size, words, List.length_drop, Stack.size]
      have enough := provides.enough
      have after : t.frame.Provides takes leaves := by
        refine ⟨(hx.safe s before).ok run, by omega, fun some => ?_⟩
        have room := provides.room some
        omega
      exact .after run ((hf a t after).mono (fun _ _ same => same) fun _ _ refused =>
        refused.before words)

theorem safe_after {takes leaves : Nat} {x : Exec α} {f : α → Exec β} (hx : Draws 0 x)
    (hf : ∀ a, Safe takes leaves goesOn (f a)) : Safe takes leaves goesOn (x >>= f) :=
  safe_bind hx hf

/-- First an action that takes all the words, then another. -/
theorem safe_over {count leaves : Nat} {x : Exec α} {f : α → Exec β} (hx : Draws count x)
    (hf : ∀ a, Safe 0 leaves goesOn (f a)) : Safe count leaves goesOn (x >>= f) := by
  have both := safe_bind hx hf
  rwa [Nat.zero_add] at both

theorem draws_bind {first count : Nat} {x : Exec α} {f : α → Exec β} (hx : Draws first x)
    (hf : ∀ a, Draws count (f a)) : Draws (count + first) (x >>= f) :=
  ⟨nets_bind hx.takes fun a => (hf a).takes, safe_bind hx fun a => (hf a).safe⟩

/-- A step that leaves the stack alone and is only taken under a condition. -/
theorem safe_when {takes leaves : Nat} {c : Prop} [Decidable c] {x : Exec α} {rest : Exec β}
    (sometimes : Draws 0 x) (always : Safe takes leaves goesOn rest) :
    Safe takes leaves goesOn (if c then x >>= fun _ => rest else rest) := by
  split
  · exact safe_after sometimes fun _ => always
  · exact always

/-- What follows cannot fail and does not end the frame, unless it has ended already. -/
theorem safe_then {takes leaves : Nat} {still : Bool} {x : Exec α} {f : α → Exec β}
    (hx : Safe takes leaves (fun _ => still) x)
    (hf : ∀ a s, s.frame.isRunning = still → ∃ b t, f a s = .ok b t ∧ t.frame.isRunning = goesOn b) :
    Safe takes leaves goesOn (x >>= f) := by
  intro s provides
  refine (hx s provides).bind fun a t running => ?_
  obtain ⟨b, u, done, same⟩ := hf a t running
  exact .of_ok done same

theorem safe_map {takes leaves : Nat} {still : Bool} {x : Exec α} {g : α → β}
    (hx : Safe takes leaves (fun _ => still) x) (same : ∀ a, goesOn (g a) = still) :
    Safe takes leaves goesOn (x >>= fun a => pure (g a)) :=
  safe_then hx fun a s running => ⟨g a, s, rfl, running.trans (same a).symm⟩

theorem safe_pure {b : β} (goes : goesOn b = true) : Safe 0 0 goesOn (pure b) :=
  fun _ provides => .of_ok rfl (provides.running.trans goes.symm)

theorem draws_pure (a : α) : Draws 0 (pure a : Exec α) :=
  ⟨nets_pure trivial, safe_pure rfl⟩

/-- An action that, where the operands are there, succeeds in a frame that still runs. -/
theorem safe_of_ok {takes leaves : Nat} {x : Exec β}
    (done : ∀ s : Focus, s.frame.Provides takes leaves →
      ∃ b t, x s = .ok b t ∧ t.frame.isRunning = goesOn b) : Safe takes leaves goesOn x := by
  intro s provides
  obtain ⟨b, t, run, same⟩ := done s provides
  exact .of_ok run same

theorem safe_ofStack {count : Nat} {f : Stack → Except Fault (α × Stack)}
    (h : ∀ stack : Stack, count ≤ stack.size → ∃ a stack', f stack = .ok (a, stack')) :
    Safe count 0 (fun _ => true) (ofStack f) := by
  refine safe_of_ok fun s provides => ?_
  obtain ⟨a, stack, popped⟩ := h _ provides.enough
  exact ⟨a, { s with frame := { s.frame with stack } }, by simp only [ofStack, popped],
    provides.running⟩

theorem draws_pop : Draws 1 (ofStack Stack.pop) := by
  refine ⟨takes_pop, safe_ofStack fun ⟨words⟩ enough => ?_⟩
  match words, enough with
  | a :: rest, _ => exact ⟨_, _, rfl⟩

theorem draws_pop2 : Draws 2 (ofStack Stack.pop2) := by
  refine ⟨takes_pop2, safe_ofStack fun ⟨words⟩ enough => ?_⟩
  match words, enough with
  | a :: b :: rest, _ => exact ⟨_, _, rfl⟩
  | [_], enough => exact absurd enough (by simp [Stack.size])

theorem draws_pop3 : Draws 3 (ofStack Stack.pop3) := by
  refine ⟨takes_pop3, safe_ofStack fun ⟨words⟩ enough => ?_⟩
  match words, enough with
  | a :: b :: c :: rest, _ => exact ⟨_, _, rfl⟩
  | [_], enough | [_, _], enough => exact absurd enough (by simp [Stack.size])

theorem draws_pop4 : Draws 4 (ofStack Stack.pop4) := by
  refine ⟨takes_pop4, safe_ofStack fun ⟨words⟩ enough => ?_⟩
  match words, enough with
  | a :: b :: c :: d :: rest, _ => exact ⟨_, _, rfl⟩
  | [_], enough | [_, _], enough | [_, _, _], enough => exact absurd enough (by simp [Stack.size])

theorem draws_popN (n : Nat) : Draws n (ofStack (·.popN n)) :=
  ⟨takes_popN n, safe_ofStack fun _ enough =>
    ⟨_, _, by simp only [Stack.popN, if_neg (Nat.not_lt.mpr enough)]; rfl⟩⟩

theorem safe_onStack {takes leaves : Nat} {f : Stack → Except Fault Stack}
    (h : ∀ stack : Stack, takes ≤ stack.size →
      (leaves ≠ 0 → stack.size - takes + leaves ≤ Stack.capacity) → ∃ stack', f stack = .ok stack') :
    Safe takes leaves (fun _ => true) (onStack f) := by
  refine safe_of_ok fun s provides => ?_
  obtain ⟨stack, changed⟩ := h _ provides.enough provides.room
  exact ⟨(), { s with frame := { s.frame with stack } }, by simp only [onStack, changed],
    provides.running⟩

theorem safe_pushWord (w : Word) : Safe 0 1 (fun _ => true) (pushWord w) := by
  refine safe_onStack fun stack _ room => ⟨_, Stack.push_of_room ?_⟩
  have := room Nat.one_ne_zero
  omega

theorem safe_dup (n : Nat) : Safe (n + 1) (n + 2) (fun _ => true) (onStack (·.dup (n + 1))) := by
  refine safe_onStack fun stack enough room => ?_
  have room := room (Nat.succ_ne_zero _)
  have inside : n < stack.words.length := enough
  have held : stack.words[n]? = some stack.words[n] := List.getElem?_eq_getElem inside
  refine ⟨⟨stack.words[n] :: stack.words⟩, ?_⟩
  simp only [Stack.dup, held]
  exact Stack.push_of_room (by omega)

theorem safe_swap (n : Nat) : Safe (n + 2) (n + 2) (fun _ => true) (onStack (·.swap (n + 1))) := by
  refine safe_onStack fun ⟨words⟩ enough _ => ?_
  match words, enough with
  | top :: rest, enough =>
      have within : n < rest.length := by
        simp only [Stack.size, List.length_cons] at enough
        omega
      exact ⟨_, by simp only [Stack.swap, List.getElem?_eq_getElem within]; rfl⟩

/-- An action on the frame that leaves its stack and its way of ending alone, where it succeeds, and
fails over something else than the stack. -/
theorem safe_ofFrame {f : Frame → Except Fault (α × Frame)}
    (same : ∀ g a g', f g = .ok (a, g') → g'.halt = g.halt)
    (causes : ∀ g cause, f g = .error cause → cause.isOfStack = false) :
    Safe 0 0 (fun _ => true) (ofFrame f) := by
  intro s provides
  cases ran : f s.frame with
  | ok answer =>
      refine .of_ok (a := answer.1) (t := { s with frame := answer.2 }) ?_ ?_
      · simp only [ofFrame, ran]
      · exact (congrArg (· == Halt.running) (same _ _ _ ran)).trans provides.running
  | error cause =>
      exact .of_error (e := .fault cause) (t := s) (by simp only [ofFrame, ran])
        ⟨causes _ _ ran, provides.running, 0, Nat.le_refl _, rfl⟩

theorem safe_onFrame {f : Frame → Except Fault Frame}
    (same : ∀ g g', f g = .ok g' → g'.halt = g.halt)
    (causes : ∀ g cause, f g = .error cause → cause.isOfStack = false) :
    Safe 0 0 (fun _ => true) (onFrame f) := by
  intro s provides
  cases ran : f s.frame with
  | ok g =>
      refine .of_ok (a := ()) (t := { s with frame := g }) (by simp only [onFrame, ran]) ?_
      exact (congrArg (· == Halt.running) (same _ _ ran)).trans provides.running
  | error cause =>
      exact .of_error (e := .fault cause) (t := s) (by simp only [onFrame, ran])
        ⟨causes _ _ ran, provides.running, 0, Nat.le_refl _, rfl⟩

theorem draws_modifyFrame {f : Frame → Frame} (stack : ∀ g, (f g).stack = g.stack)
    (halt : ∀ g, (f g).halt = g.halt) : Draws 0 (modifyFrame f) :=
  ⟨takes_modifyFrame stack, safe_of_ok fun s provides =>
    ⟨(), _, rfl, (congrArg (· == Halt.running) (halt s.frame)).trans provides.running⟩⟩

theorem draws_frame : Draws 0 frame :=
  ⟨takes_frame, safe_of_ok fun _ provides => ⟨_, _, rfl, provides.running⟩⟩

theorem draws_ledger : Draws 0 ledger :=
  ⟨takes_ledger, safe_of_ok fun _ provides => ⟨_, _, rfl, provides.running⟩⟩

theorem draws_load (key : Word) : Draws 0 (load key) :=
  ⟨takes_load key, safe_of_ok fun _ provides => ⟨_, _, rfl, provides.running⟩⟩

theorem draws_modifyLedger (f : Ledger → Ledger) : Draws 0 (modifyLedger f) :=
  ⟨takes_modifyLedger f, safe_of_ok fun _ provides => ⟨_, _, rfl, provides.running⟩⟩

theorem draws_onLedger (f : Ledger → Except StateError Ledger) : Draws 0 (onLedger f) := by
  refine ⟨takes_onLedger f, fun s provides => ?_⟩
  cases ran : f s.ledger with
  | ok l =>
      exact .of_ok (a := ()) (t := { s with ledger := l }) (by simp only [onLedger, ran])
        provides.running
  | error cause =>
      exact .of_error (e := .state cause) (t := s) (by simp only [onLedger, ran])
        ⟨rfl, provides.running, 0, Nat.le_refl _, rfl⟩

theorem draws_fail {cause : Fault} (other : cause.isOfStack = false) :
    Draws 0 (fail cause : Exec α) :=
  ⟨takes_fail cause, fun _ provides =>
    .of_error rfl ⟨other, provides.running, 0, Nat.le_refl _, rfl⟩⟩

theorem draws_requireMutable : Draws 0 requireMutable := by
  refine ⟨takes_requireMutable, fun s provides => ?_⟩
  cases static : s.frame.env.isStatic with
  | false =>
      refine .of_ok (a := ()) (t := s) ?_ provides.running
      simp [requireMutable, Frame.requireMutable, static]
  | true =>
      refine .of_error (e := .fault .staticStateChange) (t := s) ?_
        ⟨rfl, provides.running, 0, Nat.le_refl _, rfl⟩
      simp [requireMutable, Frame.requireMutable, static]

theorem draws_spend (amount : UInt64) : Draws 0 (spend amount) := by
  refine ⟨takes_spend amount, safe_onFrame (fun g g' spent => ?_) fun g cause failed => ?_⟩
  · obtain ⟨-, rfl⟩ := Frame.spend_eq_ok.mp spent
    rfl
  · rw [Frame.spend_error failed]
    rfl

theorem draws_chargeMemory (gas : GasSchedule) (offset length : Word) :
    Draws 0 (chargeMemory gas offset length) := by
  refine ⟨takes_chargeMemory gas offset length, safe_ofFrame (fun g a g' charged => ?_)
    fun g cause failed => ?_⟩
  · obtain ⟨-, -, rfl⟩ := Frame.chargeMemory_ok charged
    rfl
  · rw [Frame.chargeMemory_error failed]
    rfl

/-- The frame ends, and nothing can go wrong. -/
theorem safe_halted {halt : Halt} (ends : halt ≠ .running) :
    Safe 0 0 (fun _ => false) (modifyFrame (·.halted halt)) :=
  safe_of_ok fun s _ => ⟨(), _, rfl, s.frame.isRunning_halted ends⟩

end
end Exec
end EvmEngine
