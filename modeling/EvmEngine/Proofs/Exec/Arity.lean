import EvmEngine.Exec
import EvmEngine.Proofs.Effects
import EvmEngine.Proofs.Frame.Works

/-!
How many words an action exchanges on top of the stack where it succeeds. The words below them are
not touched. Counts add up along a sequence of actions as long as words are only taken before any
are left.
-/

namespace EvmEngine

open Effects

namespace Stack

theorem push_ok {stack stack' : Stack} {w : Word} (h : stack.push w = .ok stack') :
    stack'.words = w :: stack.words := by
  simp only [push] at h
  split at h
  · cases h
  · cases h
    rfl

theorem pop_ok {stack stack' : Stack} {w : Word} (h : stack.pop = .ok (w, stack')) :
    stack.words = w :: stack'.words := by
  simp only [pop] at h
  split at h
  · cases h
  · next words =>
      cases h
      exact words

theorem pop2_ok {stack stack' : Stack} {a b : Word} (h : stack.pop2 = .ok ((a, b), stack')) :
    stack.words = a :: b :: stack'.words := by
  simp only [pop2] at h
  split at h
  · next words =>
      cases h
      exact words
  · cases h

theorem pop3_ok {stack stack' : Stack} {a b c : Word}
    (h : stack.pop3 = .ok ((a, b, c), stack')) : stack.words = a :: b :: c :: stack'.words := by
  simp only [pop3] at h
  split at h
  · next words =>
      cases h
      exact words
  · cases h

theorem pop4_ok {stack stack' : Stack} {a b c d : Word}
    (h : stack.pop4 = .ok ((a, b, c, d), stack')) :
    stack.words = a :: b :: c :: d :: stack'.words := by
  simp only [pop4] at h
  split at h
  · next words =>
      cases h
      exact words
  · cases h

end Stack

namespace Exec

/-- An action whose answers are as given and that, where it succeeds, exchanges so many words on top
of the stack for so many others. -/
def Nets {α : Type} (takes leaves : Nat) (answers : α → Prop) (x : Exec α) : Prop :=
  ∀ s a s', x s = .ok a s' → answers a ∧ ∃ taken left rest : List Word,
    s.frame.stack.words = taken ++ rest ∧ s'.frame.stack.words = left ++ rest ∧
      taken.length = takes ∧ left.length = leaves

/-- An action that takes words and leaves none. -/
abbrev Takes {α : Type} (count : Nat) (x : Exec α) : Prop :=
  Nets count 0 (fun _ => True) x

section
variable {α β : Type} {answers : α → Prop} {answers' : β → Prop}

theorem takes_none {x : Exec α}
    (same : ∀ s a s', x s = .ok a s' → s'.frame.stack = s.frame.stack) : Takes 0 x :=
  fun s a s' run =>
    ⟨trivial, [], [], s.frame.stack.words, rfl, by rw [same s a s' run]; rfl, rfl, rfl⟩

theorem nets_pure {a : α} (ha : answers a) : Nets 0 0 answers (pure a) := by
  intro s b s' run
  obtain ⟨rfl, rfl⟩ := pure_eq_ok.mp run
  exact ⟨ha, [], [], s.frame.stack.words, rfl, rfl, rfl, rfl⟩

/-- First an action that only takes words, then another. -/
theorem nets_bind {first takes leaves : Nat} {x : Exec α} {f : α → Exec β}
    (hx : Takes first x) (hf : ∀ a, Nets takes leaves answers' (f a)) :
    Nets (takes + first) leaves answers' (x >>= f) := by
  intro s b s' run
  obtain ⟨a, t, run₁, run₂⟩ := bind_eq_ok.mp run
  obtain ⟨-, taken₁, left₁, rest₁, before, between, count₁, none⟩ := hx s a t run₁
  obtain ⟨hb, taken₂, left₂, rest₂, between', after, count₂, given⟩ := hf a t b s' run₂
  obtain rfl := List.length_eq_zero_iff.mp none
  refine ⟨hb, taken₁ ++ taken₂, left₂, rest₂, ?_, after, ?_, given⟩
  rotate_left
  · rw [List.length_append, count₁, count₂, Nat.add_comm]
  rw [List.nil_append] at between
  rw [before, ← between, between', List.append_assoc]

theorem nets_after {takes leaves : Nat} {x : Exec α} {f : α → Exec β}
    (hx : Takes 0 x) (hf : ∀ a, Nets takes leaves answers' (f a)) :
    Nets takes leaves answers' (x >>= f) := by
  exact nets_bind hx hf

theorem nets_then {takes leaves : Nat} {x : Exec α} {f : α → Exec β}
    (hx : Nets takes leaves answers x) (hf : ∀ a, Nets 0 0 answers' (f a)) :
    Nets takes leaves answers' (x >>= f) := by
  intro s b s' run
  obtain ⟨a, t, run₁, run₂⟩ := bind_eq_ok.mp run
  obtain ⟨-, taken, left, rest, before, between, count, given⟩ := hx s a t run₁
  obtain ⟨hb, taken₂, left₂, rest₂, between', after, count₂, given₂⟩ := hf a t b s' run₂
  obtain rfl := List.length_eq_zero_iff.mp count₂
  obtain rfl := List.length_eq_zero_iff.mp given₂
  refine ⟨hb, taken, left, rest, before, ?_, count, given⟩
  rw [after, ← between', between]

/-- A step that leaves the stack alone and is only taken under a condition. -/
theorem nets_when {takes leaves : Nat} {c : Prop} [Decidable c] {x : Exec α} {rest : Exec β}
    (sometimes : Takes 0 x) (always : Nets takes leaves answers' rest) :
    Nets takes leaves answers' (if c then x >>= fun _ => rest else rest) := by
  split
  · exact nets_after sometimes fun _ => always
  · exact always

theorem takes_ofStack {count : Nat} {f : Stack → Except Fault (α × Stack)}
    (h : ∀ stack a stack', f stack = .ok (a, stack') →
      ∃ taken, stack.words = taken ++ stack'.words ∧ taken.length = count) :
    Takes count (ofStack f) := by
  intro s a s' run
  simp only [ofStack] at run
  split at run
  · next popped =>
      cases run
      obtain ⟨taken, before, length⟩ := h _ _ _ popped
      exact ⟨trivial, taken, [], _, before, rfl, length, rfl⟩
  · cases run

theorem takes_pop : Takes 1 (ofStack Stack.pop) :=
  takes_ofStack fun _ a _ popped => ⟨[a], Stack.pop_ok popped, rfl⟩

theorem takes_pop2 : Takes 2 (ofStack Stack.pop2) :=
  takes_ofStack fun _ (a, b) _ popped => ⟨[a, b], Stack.pop2_ok popped, rfl⟩

theorem takes_pop3 : Takes 3 (ofStack Stack.pop3) :=
  takes_ofStack fun _ (a, b, c) _ popped => ⟨[a, b, c], Stack.pop3_ok popped, rfl⟩

theorem takes_pop4 : Takes 4 (ofStack Stack.pop4) :=
  takes_ofStack fun _ (a, b, c, d) _ popped => ⟨[a, b, c, d], Stack.pop4_ok popped, rfl⟩

theorem takes_popN (n : Nat) : Takes n (ofStack (·.popN n)) := by
  refine takes_ofStack fun stack a stack' popped => ?_
  simp only [Stack.popN] at popped
  split at popped
  · cases popped
  · next enough =>
      cases popped
      refine ⟨stack.words.take n, (List.take_append_drop n _).symm, ?_⟩
      rw [List.length_take]
      have := Nat.not_lt.mp enough
      exact Nat.min_eq_left this

theorem nets_onStack {takes leaves : Nat} {f : Stack → Except Fault Stack}
    (h : ∀ stack stack', f stack = .ok stack' → ∃ taken left rest,
      stack.words = taken ++ rest ∧ stack'.words = left ++ rest ∧
        taken.length = takes ∧ left.length = leaves) :
    Nets takes leaves (fun _ => True) (onStack f) := by
  intro s a s' run
  simp only [onStack] at run
  split at run
  · next changed =>
      cases run
      exact ⟨trivial, h _ _ changed⟩
  · cases run

theorem nets_pushWord (w : Word) : Nets 0 1 (fun _ => True) (pushWord w) :=
  nets_onStack fun stack _ pushed => ⟨[], [w], stack.words, rfl, Stack.push_ok pushed, rfl, rfl⟩

theorem nets_dup (n : Nat) : Nets (n + 1) (n + 2) (fun _ => True) (onStack (·.dup (n + 1))) := by
  refine nets_onStack fun stack stack' copied => ?_
  simp only [Stack.dup] at copied
  split at copied
  · cases copied
  · next w held =>
      obtain ⟨short, -⟩ := List.getElem?_eq_some_iff.mp held
      have count : (stack.words.take (n + 1)).length = n + 1 := by
        rw [List.length_take]
        omega
      refine ⟨stack.words.take (n + 1), w :: stack.words.take (n + 1), stack.words.drop (n + 1),
        (List.take_append_drop _ _).symm, ?_, count, by rw [List.length_cons, count]⟩
      rw [Stack.push_ok copied, List.cons_append, List.take_append_drop]

theorem nets_swap (n : Nat) : Nets (n + 2) (n + 2) (fun _ => True) (onStack (·.swap (n + 1))) := by
  refine nets_onStack fun stack stack' swapped => ?_
  simp only [Stack.swap] at swapped
  split at swapped
  · next top below m words same =>
      obtain rfl : n = m := by omega
      split at swapped
      · next w held =>
          cases swapped
          obtain ⟨short, -⟩ := List.getElem?_eq_some_iff.mp held
          refine ⟨top :: below.take (n + 1), w :: (below.set n top).take (n + 1),
            below.drop (n + 1), by simp [words], ?_, ?_, ?_⟩
          · have kept : (below.set n top).drop (n + 1) = below.drop (n + 1) :=
              List.drop_set_of_lt (Nat.lt_succ_self n)
            rw [List.cons_append, ← kept, List.take_append_drop]
          · simp only [List.length_cons, List.length_take]
            omega
          · simp only [List.length_cons, List.length_take, List.length_set]
            omega
      · cases swapped
  · cases swapped

theorem takes_ofFrame {f : Frame → Except Fault (α × Frame)}
    (same : ∀ g a g', f g = .ok (a, g') → g'.stack = g.stack) : Takes 0 (ofFrame f) := by
  refine takes_none fun s a s' run => ?_
  simp only [ofFrame] at run
  split at run
  · next done =>
      cases run
      exact same _ _ _ done
  · cases run

theorem takes_onFrame {f : Frame → Except Fault Frame}
    (same : ∀ g g', f g = .ok g' → g'.stack = g.stack) : Takes 0 (onFrame f) := by
  refine takes_none fun s a s' run => ?_
  simp only [onFrame] at run
  split at run
  · next done =>
      cases run
      exact same _ _ done
  · cases run

theorem takes_modifyFrame {f : Frame → Frame} (same : ∀ g, (f g).stack = g.stack) :
    Takes 0 (modifyFrame f) := by
  refine takes_none fun s a s' run => ?_
  cases run
  exact same s.frame

theorem takes_modifyLedger (f : Ledger → Ledger) : Takes 0 (modifyLedger f) := by
  refine takes_none fun s a s' run => ?_
  cases run
  rfl

theorem takes_onLedger (f : Ledger → Except StateError Ledger) : Takes 0 (onLedger f) := by
  refine takes_none fun s a s' run => ?_
  simp only [onLedger] at run
  split at run <;> cases run
  rfl

theorem takes_frame : Takes 0 frame := by
  refine takes_none fun s a s' run => ?_
  cases run
  rfl

theorem takes_ledger : Takes 0 ledger := by
  refine takes_none fun s a s' run => ?_
  cases run
  rfl

theorem takes_load (key : Word) : Takes 0 (load key) := by
  refine takes_none fun s a s' run => ?_
  cases run
  rfl

theorem takes_fail (cause : Fault) : Takes 0 (fail cause : Exec α) :=
  takes_none fun _ _ _ run => by cases run

theorem takes_requireMutable : Takes 0 requireMutable := by
  refine takes_none fun s a s' run => ?_
  simp only [requireMutable] at run
  split at run <;> cases run
  rfl

theorem takes_spend (amount : UInt64) : Takes 0 (spend amount) := by
  refine takes_onFrame fun g g' spent => ?_
  obtain ⟨-, rfl⟩ := Frame.spend_eq_ok.mp spent
  rfl

theorem takes_chargeMemory (gas : GasSchedule) (offset length : Word) :
    Takes 0 (chargeMemory gas offset length) := by
  refine takes_ofFrame fun g span g' charged => ?_
  obtain ⟨-, -, rfl⟩ := Frame.chargeMemory_ok charged
  rfl

end
end Exec
end EvmEngine
