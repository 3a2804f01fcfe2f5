import EvmEngine.Proofs.Machine.WholeCall

/-!
What becomes of a request. The frames that wait below a running one have no part in its run: until the
outermost frame above them is finished, every iteration is the one that would be made without them.
So a frame that is entered runs as the outermost frame of a run of its own, and what is known of such
runs holds for every call and creation inside one.
-/

namespace EvmEngine

/-- An iteration above frames that wait, where the outermost frame above them returns to a target:
what would be the end of the run is handed to the first of them. -/
def Progress.onto (target : ReturnTarget) (ground : List Frame) : Progress → Progress
  | more m => .more { m with frames := m.frames ++ ground }
  | failed e m => .failed e { m with frames := m.frames ++ ground }
  | finished result m =>
      match ground with
      | [] => .finished result m
      | parent :: rest => m.deliver result target parent rest

namespace Machine

variable {host : Host} {m m' : Machine}

/-- The machine with more frames that wait below its own. -/
def above (m : Machine) (ground : List Frame) : Machine :=
  { m with frames := m.frames ++ ground }

theorem deliver_onto (l : Ledger) (frames frames' : List Frame) (watch : Watch)
    (result : CallResult) (goal target : ReturnTarget) (f : Frame) (below ground : List Frame) :
    (deliver ⟨l, frames, watch⟩ result goal f below).onto target ground =
      deliver ⟨l, frames', watch⟩ result goal f (below ++ ground) := by
  simp only [deliver]
  split <;> rfl

theorem enter_onto (l : Ledger) (frames frames' : List Frame) (watch : Watch)
    (action : Journaled (Prepared × ReturnTarget)) (target : ReturnTarget) (f : Frame)
    (below ground : List Frame) :
    (enter ⟨l, frames, watch⟩ action f below).onto target ground =
      enter ⟨l, frames', watch⟩ action f (below ++ ground) := by
  simp only [enter]
  split
  · rfl
  · next prepared goal l' _ =>
      cases prepared with
      | finished result => exact deliver_onto ..
      | enter child => rfl

theorem follow_onto (l : Ledger) (frames frames' : List Frame) (watch : Watch) (control : Control)
    (target : ReturnTarget) (f : Frame) (below ground : List Frame) :
    (follow ⟨l, frames, watch⟩ host control f below).onto target ground =
      follow ⟨l, frames', watch⟩ host control f (below ++ ground) := by
  cases control with
  | next | jumped | halted => rfl
  | call | create => exact enter_onto ..

/-- Where the result of the outermost frame goes, if there is one. -/
def goal? (frames : List Frame) : Option ReturnTarget :=
  frames.getLast?.map Frame.target

theorem goal?_cons (f g : Frame) (below : List Frame) :
    goal? (f :: g :: below) = goal? (g :: below) := by
  simp [goal?]

theorem goal?_replace {f f' : Frame} (below : List Frame) (same : f'.target = f.target) :
    goal? (f' :: below) = goal? (f :: below) := by
  cases below with
  | nil => exact congrArg some same
  | cons parent rest => rw [goal?_cons, goal?_cons]

theorem Step.goal? (step : Step host m m') : goal? m'.frames = goal? m.frames := by
  cases step with
  | ran running stepped quiet => exact goal?_replace _ (Focus.Keeps.of_step_ok stepped).target
  | answered running stepped asks set absorbed =>
      have kept := Focus.Keeps.of_step_ok stepped
      exact goal?_replace _ ((Frame.absorb_ok absorbed).target.trans kept.target)
  | entered running stepped asks set =>
      rw [goal?_cons]
      exact goal?_replace _ (Focus.Keeps.of_step_ok stepped).target
  | returned ended completed absorbed =>
      rw [goal?_cons]
      exact goal?_replace _ (Frame.absorb_ok absorbed).target

variable {target : ReturnTarget}

/-- Frames that wait below change nothing about an iteration but who gets the last result. -/
theorem advance_above (ground : List Frame) (goal : goal? m.frames = some target) :
    (m.above ground).advance host = (m.advance host).onto target ground := by
  obtain ⟨l, frames, watch⟩ := m
  cases frames with
  | nil => cases goal
  | cons f below =>
      simp only [above, advance, List.cons_append]
      split
      · split
        · exact (follow_onto ..).symm
        · rfl
      · split
        · rfl
        · cases below with
          | nil =>
              cases goal
              cases ground <;> rfl
          | cons parent rest => exact (deliver_onto ..).symm

theorem delivered_of_more {result : CallResult} {f : Frame} {below : List Frame}
    (h : m.deliver result target f below = .more m') :
    ∃ f', Frame.absorb result target f = .ok () f' ∧ m' = { m with frames := f' :: below } := by
  simp only [deliver] at h
  split at h
  · next f' absorbed =>
      cases h
      exact ⟨f', absorbed, rfl⟩
  · cases h

/-- As long as more frames are open than those that wait, a run above these is a run of its own. -/
theorem iterate_above {parent : Frame} {below : List Frame} {n : Nat} {last : Machine}
    (goal : goal? m.frames = some target)
    (reached : iterate host n (m.above (parent :: below)) = .more last)
    (inside : ∀ j mid, 0 < j → j ≤ n → iterate host j (m.above (parent :: below)) = .more mid →
      below.length + 1 < mid.frames.length) :
    ∃ inner, goal? inner.frames = some target ∧ iterate host n m = .more inner ∧
      last = inner.above (parent :: below) := by
  induction n generalizing m with
  | zero =>
      cases reached
      exact ⟨m, goal, rfl, rfl⟩
  | succ n ih =>
      have advanced : (m.above (parent :: below)).advance host = _ := advance_above _ goal
      cases ran : m.advance host with
      | more next =>
          rw [ran] at advanced
          have first (j : Nat) : iterate host (j + 1) (m.above (parent :: below)) =
              iterate host j (next.above (parent :: below)) := by
            simp only [iterate, advanced, Progress.onto]
            rfl
          rw [first] at reached
          obtain ⟨inner, goal', ended, rfl⟩ := ih ((step_of_more ran).goal?.trans goal) reached
            fun j mid positive le mids =>
              inside (j + 1) mid (Nat.succ_pos j) (by omega) ((first j).trans mids)
          exact ⟨inner, goal', by simp only [iterate, ran, ended], rfl⟩
      | failed e next =>
          rw [ran] at advanced
          simp [iterate, advanced, Progress.onto] at reached
      | finished result next =>
          -- The result would go to the first of the frames that wait.
          rw [ran] at advanced
          cases delivered : next.deliver result target parent below with
          | more mid =>
              obtain ⟨f', -, rfl⟩ := delivered_of_more delivered
              have first : iterate host 1 (m.above (parent :: below)) =
                  .more { next with frames := f' :: below } := by
                simp only [iterate, advanced, Progress.onto, delivered]
              have grown := inside 1 _ (Nat.succ_pos 0) (by omega) first
              simp at grown
          | failed e mid => simp [iterate, advanced, Progress.onto, delivered] at reached
          | finished answer mid => simp [iterate, advanced, Progress.onto, delivered] at reached

/-- A request of the innermost frame, from the iteration that makes it to the one after which the
frame is innermost again. By the first of these the frame has paid for what it asks, and its ledger
is as it is given. -/
structure Requested (host : Host) (m last m' : Machine) (control : Control) (f₁ : Frame)
    (below : List Frame) (l₁ : Ledger) : Prop where
  stepped : ∃ f, m.frames = f :: below ∧ f.isRunning = true ∧
    Focus.step ⟨f, m.ledger⟩ host (f.fetch host m.watch.interrupted) = .ok control ⟨f₁, l₁⟩
  request : control.isRequest = true
  inside : ∃ n, iterate host n m = .more last ∧
    ∀ j mid, 0 < j → j ≤ n → iterate host j m = .more mid → m.frames.length < mid.frames.length
  returns : last.advance host = .more m'
  back : m'.frames.length = m.frames.length

/-- How a request gets its result, and the ledger it leaves: it is answered at once, or it enters a
frame that is run, with those it asks for, until it is finished. -/
inductive Resolved (host : Host) (control : Control) (f₁ : Frame) (l₁ : Ledger) :
    CallResult → Ledger → Prop
  | answered {gas : UInt64} {action : Journaled (Prepared × ReturnTarget)} {target : ReturnTarget}
      {result : CallResult} {l : Ledger} (asks : control.Asks host f₁.env gas action)
      (set : action l₁ = .ok (.finished result, target) l) :
      Resolved host control f₁ l₁ result l
  | ran {gas : UInt64} {action : Journaled (Prepared × ReturnTarget)} {target : ReturnTarget}
      {child : Frame} {l₂ : Ledger} {watch : Watch} {n : Nat} {before after : Machine}
      {result : CallResult} (asks : control.Asks host f₁.env gas action)
      (set : action l₁ = .ok (.enter child, target) l₂)
      (reached : iterate host n ⟨l₂, [child], watch⟩ = .more before)
      (done : before.advance host = .finished result after) :
      Resolved host control f₁ l₁ result after.ledger

section
variable {f f₁ : Frame} {below : List Frame} {l₁ : Ledger} {control : Control} {last : Machine}

/-- A request that is answered at once hands the answer to the frame. -/
theorem resolved_of_answered (step : Step host m m') (frames : m.frames = f :: below)
    (running : f.isRunning = true) (request : control.isRequest = true)
    (stepped : Focus.step ⟨f, m.ledger⟩ host (f.fetch host m.watch.interrupted) =
      .ok control ⟨f₁, l₁⟩)
    (back : m'.frames.length = m.frames.length) :
    ∃ result f' target, HandsOver host m result f₁ ∧ control.Returns target ∧
      Frame.absorb result target f₁ = .ok () f' ∧ m'.frames = f' :: below ∧
      Resolved host control f₁ l₁ result m'.ledger := by
  cases step with
  | ran _ ran quiet =>
      cases frames
      cases ran.symm.trans stepped
      rw [request] at quiet
      cases quiet
  | answered _ ran asks set absorbed =>
      cases frames
      cases ran.symm.trans stepped
      have returns := ((Focus.step_prepares stepped asks).ok set).1
      exact ⟨_, _, _, .answered rfl running stepped asks set, returns, absorbed, rfl,
        .answered asks set⟩
  | entered _ ran asks set => simp at back
  | returned ended completed absorbed =>
      cases frames
      rw [running] at ended
      cases ended

/-- A request that enters a frame gets the result of the run of that frame. -/
theorem resolved_of_entered {n : Nat} {first : Machine} (step : Step host m first)
    (frames : m.frames = f :: below)
    (stepped : Focus.step ⟨f, m.ledger⟩ host (f.fetch host m.watch.interrupted) =
      .ok control ⟨f₁, l₁⟩)
    (reached : iterate host n first = .more last)
    (inside : ∀ j mid, j ≤ n → iterate host j first = .more mid →
      m.frames.length < mid.frames.length)
    (returns : last.advance host = .more m') (back : m'.frames.length = m.frames.length) :
    ∃ result f' target, HandsOver host last result f₁ ∧ control.Returns target ∧
      Frame.absorb result target f₁ = .ok () f' ∧ m'.frames = f' :: below ∧
      Resolved host control f₁ l₁ result m'.ledger := by
  have grown := inside 0 first (Nat.zero_le _) rfl
  cases step with
  | ran _ ran quiet => simp at grown
  | answered _ ran asks set absorbed => simp at grown
  | returned ended completed absorbed =>
      simp only [List.length_cons] at grown
      omega
  | @entered _ _ child _ _ _ l₂ _ watch _ _ _ _ _ ran asks set =>
      cases frames
      cases ran.symm.trans stepped
      obtain ⟨-, returned, -⟩ := (Focus.step_entered stepped asks set).enters
      obtain ⟨inner, goal, ended, rfl⟩ := iterate_above (m := ⟨l₂, [child], watch⟩) rfl reached
        fun j mid _ le mids => inside j mid le mids
      have advanced : (inner.above (f₁ :: below)).advance host = _ := advance_above _ goal
      rw [returns] at advanced
      cases last : inner.advance host with
      | more next =>
          -- There is still a frame above those that wait.
          rw [last] at advanced
          cases advanced
          have some := List.length_pos_of_ne_nil (step_of_more last).open
          simp only [List.length_append, List.length_cons] at back
          omega
      | failed e next =>
          rw [last] at advanced
          cases advanced
      | finished result next =>
          rw [last] at advanced
          obtain ⟨c, l, watch', rfl, stopped, completed⟩ := last_of_finished last
          obtain ⟨f', absorbed, rfl⟩ := delivered_of_more advanced.symm
          have resolved : Resolved host control f₁ l₁ result next.ledger := .ran asks set ended last
          exact ⟨result, f', child.target, .returned rfl stopped completed, returned, absorbed, rfl,
            resolved⟩

end

/-- The number of frames that are open at the head of an iteration, where the run gets that far. -/
def openFrames? (host : Host) (m : Machine) (n : Nat) : Option Nat :=
  match iterate host n m with
  | .more mid => some mid.frames.length
  | .finished _ _ | .failed _ _ => none

/-- The result of the innermost frame at the head of an iteration, where it has ended by then. -/
def ended? (host : Host) (m : Machine) (n : Nat) : Option CallResult :=
  match iterate host n m with
  | .more ⟨l, f :: _, _⟩ =>
      match f.isRunning, f.complete host l with
      | false, .ok result _ => some result
      | _, _ => none
  | _ => none

theorem HandsOver.ended?_eq {last : Machine} {result : CallResult} {f : Frame} {n : Nat}
    (h : HandsOver host last result f) (reached : iterate host n m = .more last)
    (ended : ended? host m n ≠ none) : ended? host m n = some result := by
  obtain ⟨l, frames, watch⟩ := last
  cases h with
  | answered frames running =>
      obtain rfl : _ = _ := frames
      simp [ended?, reached, running] at ended
  | returned frames waiting completed =>
      obtain rfl : _ = _ := frames
      simp only [ended?, reached, waiting, completed]

/-- What the innermost frame asks for, or how it goes on otherwise. -/
def control? (host : Host) (m : Machine) : Option Control :=
  match m.frames with
  | [] => none
  | f :: _ =>
      match f.isRunning, Focus.step ⟨f, m.ledger⟩ host (f.fetch host m.watch.interrupted) with
      | true, .ok control _ => some control
      | _, _ => none

theorem last_of_iterate {n : Nat} (reached : iterate host (n + 1) m = .more m') :
    ∃ last, iterate host n m = .more last ∧ last.advance host = .more m' := by
  induction n generalizing m with
  | zero =>
      simp only [iterate] at reached
      split at reached
      · next next advanced =>
          cases reached
          exact ⟨m, rfl, advanced⟩
      · next other stops => exact (stops m' reached).elim
  | succ n ih =>
      rw [iterate] at reached
      split at reached
      · next next advanced =>
          obtain ⟨last, ended, final⟩ := ih reached
          exact ⟨last, by simp only [iterate, advanced, ended], final⟩
      · next other stops => exact (stops m' reached).elim

/-- A request is found by running the machine and counting the frames that are open. -/
theorem requested_of_openFrames {n : Nat} {control : Control}
    (asked : control? host m = some control) (request : control.isRequest = true)
    (inside : ∀ j < n, (openFrames? host m (j + 1)).any (m.frames.length < ·) = true)
    (back : openFrames? host m (n + 1) = some m.frames.length) :
    ∃ last m' f₁ below l₁, iterate host n m = .more last ∧
      Requested host m last m' control f₁ below l₁ := by
  obtain ⟨f, below, f₁, l₁, frames, running, stepped⟩ : ∃ f below f₁ l₁, m.frames = f :: below ∧
      f.isRunning = true ∧ Focus.step ⟨f, m.ledger⟩ host (f.fetch host m.watch.interrupted) =
        .ok control ⟨f₁, l₁⟩ := by
    simp only [control?] at asked
    split at asked
    · cases asked
    · next f below frames =>
        split at asked
        · next control s running stepped =>
            cases asked
            exact ⟨f, below, s.frame, s.ledger, frames, running, stepped⟩
        · cases asked
  simp only [openFrames?] at back
  split at back
  · next m' reached =>
      obtain ⟨last, ended, returns⟩ := last_of_iterate reached
      refine ⟨last, m', f₁, below, l₁, ended, ⟨f, frames, running, stepped⟩, request,
        ⟨n, ended, ?_⟩, returns, Option.some.inj back⟩
      intro j mid positive le mids
      have counted := inside (j - 1) (by omega)
      rw [Nat.sub_add_cancel positive] at counted
      simpa only [openFrames?, mids, Option.any_some, decide_eq_true_eq] using counted
  all_goals cases back

/-- Every request whose frame goes on has been resolved, and its result handed to that frame. -/
theorem Requested.resolved {control : Control} {f₁ : Frame} {below : List Frame} {l₁ : Ledger}
    {last : Machine} (h : Requested host m last m' control f₁ below l₁) :
    ∃ result f' target, HandsOver host last result f₁ ∧ control.Returns target ∧
      Frame.absorb result target f₁ = .ok () f' ∧ m'.frames = f' :: below ∧
      Resolved host control f₁ l₁ result m'.ledger := by
  obtain ⟨f, frames, running, stepped⟩ := h.stepped
  obtain ⟨n, reached, above⟩ := h.inside
  cases n with
  | zero =>
      cases reached
      exact resolved_of_answered (step_of_more h.returns) frames running h.request stepped h.back
  | succ n =>
      cases advanced : m.advance host with
      | more first =>
          have later (j : Nat) : iterate host (j + 1) m = iterate host j first := by
            simp only [iterate, advanced]
          rw [later] at reached
          exact resolved_of_entered (step_of_more advanced) frames stepped reached
            (fun j mid le mids => above (j + 1) mid (Nat.succ_pos j) (by omega)
              ((later j).trans mids)) h.returns h.back
      | finished result last => simp [iterate, advanced] at reached
      | failed e last => simp [iterate, advanced] at reached

end Machine
end EvmEngine
