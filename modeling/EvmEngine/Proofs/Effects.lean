/-!
Actions that read and change a state and may fail, seen from outside: the answer, the state in which
the action ends, how both come about when one action follows another, and what is known of them
beforehand.
-/

namespace EvmEngine
namespace Effects
universe u
variable {ε σ α β : Type u}

/-- The state in which an action ends, whether or not it fails. -/
def endState (x : EStateM ε σ α) (s : σ) : σ :=
  match x s with
  | .ok _ s' | .error _ s' => s'

/-- What an action answers, without the state. -/
def answer (x : EStateM ε σ α) (s : σ) : Except ε α :=
  match x s with
  | .ok a _ => .ok a
  | .error e _ => .error e

theorem endState_ok {x : EStateM ε σ α} {s s' : σ} {a : α} (h : x s = .ok a s') :
    endState x s = s' := by
  simp only [endState, h]

theorem endState_error {x : EStateM ε σ α} {s s' : σ} {e : ε} (h : x s = .error e s') :
    endState x s = s' := by
  simp only [endState, h]

theorem answer_eq_ok {x : EStateM ε σ α} {s : σ} {a : α} :
    answer x s = .ok a ↔ ∃ s', x s = .ok a s' := by
  simp only [answer]
  cases x s <;> simp

/-- An answer that passes a test is the answer of an action that did not fail. -/
theorem ok_of_answer {x : EStateM ε σ α} {s : σ} {test : α → Bool}
    (h : (answer x s).toOption.any test = true) : ∃ a s', x s = .ok a s' ∧ test a = true := by
  simp only [answer] at h
  cases ran : x s with
  | ok a s' =>
      rw [ran] at h
      exact ⟨a, s', rfl, h⟩
  | error e s' =>
      rw [ran] at h
      cases h

theorem bind_of_ok {x : EStateM ε σ α} {f : α → EStateM ε σ β} {s s' : σ} {a : α}
    (h : x s = .ok a s') : (x >>= f) s = f a s' := by
  simp only [bind, EStateM.bind, h]

theorem bind_of_error {x : EStateM ε σ α} {f : α → EStateM ε σ β} {s s' : σ} {e : ε}
    (h : x s = .error e s') : (x >>= f) s = .error e s' := by
  simp only [bind, EStateM.bind, h]

theorem bind_eq_ok {x : EStateM ε σ α} {f : α → EStateM ε σ β} {s s' : σ} {b : β} :
    (x >>= f) s = .ok b s' ↔ ∃ a s₁, x s = .ok a s₁ ∧ f a s₁ = .ok b s' := by
  cases h : x s with
  | ok a s₁ => simp [bind_of_ok h, and_assoc]
  | error e s₁ => simp [bind_of_error h]

theorem bind_congr_left {x y : EStateM ε σ α} {f : α → EStateM ε σ β} {s : σ} (same : x s = y s) :
    (x >>= f) s = (y >>= f) s := by
  simp only [bind, EStateM.bind, same]

/-- What follows an action matters only for the answers and states the action can come to. -/
theorem bind_congr_ok {x : EStateM ε σ α} {f g : α → EStateM ε σ β} {s : σ}
    (same : ∀ a t, x s = .ok a t → f a t = g a t) : (x >>= f) s = (x >>= g) s := by
  cases ran : x s with
  | ok a t => rw [bind_of_ok ran, bind_of_ok ran, same a t ran]
  | error e t => rw [bind_of_error ran, bind_of_error ran]

theorem pure_eq_ok {a b : α} {s s' : σ} :
    (pure a : EStateM ε σ α) s = .ok b s' ↔ a = b ∧ s = s' := by
  simp [pure, EStateM.pure]

/-- What an action leads to from a state: one thing where it succeeds, another where it fails. -/
structure Ensures (x : EStateM ε σ α) (s : σ) (post : α → σ → Prop) (fails : ε → σ → Prop) :
    Prop where
  ok {a : α} {s' : σ} : x s = .ok a s' → post a s'
  error {e : ε} {s' : σ} : x s = .error e s' → fails e s'

namespace Ensures

variable {x : EStateM ε σ α} {f : α → EStateM ε σ β} {s t : σ} {a : α} {post : α → σ → Prop}
  {last : β → σ → Prop} {fails : ε → σ → Prop}

theorem of_ok (ran : x s = .ok a t) (h : post a t) : Ensures x s post fails where
  ok run := by
    cases ran.symm.trans run
    exact h
  error run := by cases ran.symm.trans run

theorem of_error {e : ε} (ran : x s = .error e t) (h : fails e t) : Ensures x s post fails where
  ok run := by cases ran.symm.trans run
  error run := by
    cases ran.symm.trans run
    exact h

theorem of_eq {y : EStateM ε σ α} (same : x s = y t) (h : Ensures y t post fails) :
    Ensures x s post fails where
  ok run := h.ok (same.symm.trans run)
  error run := h.error (same.symm.trans run)

theorem anyway (x : EStateM ε σ α) (s : σ) : Ensures x s (fun _ _ => True) (fun _ _ => True) :=
  ⟨fun _ => trivial, fun _ => trivial⟩

theorem after (ran : x s = .ok a t) (next : Ensures (f a) t last fails) :
    Ensures (x >>= f) s last fails :=
  .of_eq (bind_of_ok ran) next

theorem bind (first : Ensures x s post fails)
    (next : ∀ a t, post a t → Ensures (f a) t last fails) : Ensures (x >>= f) s last fails := by
  cases ran : x s with
  | ok a t => exact .after ran (next a t (first.ok ran))
  | error e t => exact .of_error (bind_of_error ran) (first.error ran)

theorem mono {post' : α → σ → Prop} {fails' : ε → σ → Prop} (h : Ensures x s post fails)
    (weaker : ∀ a t, post a t → post' a t) (weaker_fails : ∀ e t, fails e t → fails' e t) :
    Ensures x s post' fails' where
  ok run := weaker _ _ (h.ok run)
  error run := weaker_fails _ _ (h.error run)

/-- What both outcomes come to holds of the state in which the action ends. -/
theorem endState {P : σ → Prop} (h : Ensures x s post fails) (of_ok : ∀ a t, post a t → P t)
    (of_error : ∀ e t, fails e t → P t) : P (endState x s) := by
  cases ran : x s with
  | ok a t => exact (endState_ok ran).symm ▸ of_ok a t (h.ok ran)
  | error e t => exact (endState_error ran).symm ▸ of_error e t (h.error ran)

end Ensures

/-- Two results that are the same but for the states, which are related. -/
inductive Parallel (post : α → σ → σ → Prop) (fails : ε → σ → σ → Prop) :
    EStateM.Result ε σ α → EStateM.Result ε σ α → Prop
  | ok {a : α} {s t : σ} (related : post a s t) : Parallel post fails (.ok a s) (.ok a t)
  | error {e : ε} {s t : σ} (related : fails e s t) : Parallel post fails (.error e s) (.error e t)

/-- The same result, in states that are related. -/
abbrev Same (R : σ → σ → Prop) : EStateM.Result ε σ α → EStateM.Result ε σ α → Prop :=
  Parallel (fun _ => R) (fun _ => R)

namespace Parallel

variable {x y : EStateM ε σ α} {f g : α → EStateM ε σ β} {s t : σ} {post : α → σ → σ → Prop}
  {last : β → σ → σ → Prop} {fails : ε → σ → σ → Prop}

theorem of_pure {a : α} (related : post a s t) :
    Parallel post fails ((pure a : EStateM ε σ α) s) ((pure a : EStateM ε σ α) t) :=
  .ok related

theorem bind (first : Parallel post fails (x s) (y t))
    (next : ∀ a s' t', post a s' t' → Parallel last fails (f a s') (g a t')) :
    Parallel last fails ((x >>= f) s) ((y >>= g) t) := by
  simp only [Bind.bind, EStateM.bind]
  generalize x s = r, y t = r' at first
  cases first with
  | ok related => exact next _ _ _ related
  | error related => exact .error related

theorem after {a b : α} {s' t' : σ} (left : x s = .ok a s') (right : y t = .ok b t')
    (next : Parallel last fails (f a s') (g b t')) :
    Parallel last fails ((x >>= f) s) ((y >>= g) t) := by
  rw [bind_of_ok left, bind_of_ok right]
  exact next

theorem answer_eq (h : Parallel post fails (x s) (y t)) : answer y t = answer x s := by
  simp only [answer]
  generalize x s = r, y t = r' at h
  cases h <;> rfl

theorem endState {P : σ → σ → Prop} (h : Parallel post fails (x s) (y t))
    (of_ok : ∀ a s t, post a s t → P s t) (of_error : ∀ e s t, fails e s t → P s t) :
    P (endState x s) (endState y t) := by
  simp only [Effects.endState]
  generalize x s = r, y t = r' at h
  cases h with
  | ok related => exact of_ok _ _ _ related
  | error related => exact of_error _ _ _ related

end Parallel
end Effects
end EvmEngine
