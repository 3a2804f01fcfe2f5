import EvmEngine.Machine
import EvmEngine.Proofs.Calls.Checkpoints
import EvmEngine.Proofs.Frame.Absorb
import EvmEngine.Proofs.Instruction.Moves
import EvmEngine.Proofs.Instruction.Requests

/-!
What one iteration can do, said once. The innermost frame runs an instruction that asks for nothing,
asks for a frame and gets its answer at once, enters the frame it asked for, or hands its result to
the frame below. An iteration that fails leaves as many frames open as there are checkpoints to roll
back.
-/

namespace EvmEngine

open Effects

namespace Control

/-- How what a frame asks for is set up, and the gas that is meant for it. -/
inductive Asks (host : Host) (env : Environment) :
    Control → UInt64 → Journaled (Prepared × ReturnTarget) → Prop
  | call (r : CallRequest) : Asks host env (.call r) r.gas
      (do return (← r.prepare host env.tx (env.depth + 1), r.target))
  | create (r : CreateRequest) : Asks host env (.create r) r.gas
      (do
        let (prepared, address) ← r.prepare host env.tx (env.depth + 1)
        return (prepared, .account (address.getD 0)))

/-- Where the result of what is asked for goes. -/
def Returns (control : Control) (target : ReturnTarget) : Prop :=
  match control with
  | .call r => target = r.target
  | .create _ => ∃ a, target = .account a
  | .next | .jumped | .halted => False

/-- The ledger on which the checkpoint of what a frame asks for is opened, or would be if it were
not refused. -/
def opening (control : Control) (rules : Rules) (env : Environment) (l : Ledger) : Ledger :=
  match control with
  | .create r => r.opening rules (env.depth + 1) l
  | .call _ | .next | .jumped | .halted => l

theorem saved_opening (control : Control) (rules : Rules) (env : Environment) (l : Ledger) :
    (control.opening rules env l).saved = l.saved := by
  cases control with
  | create r => exact r.saved_opening rules _ l
  | call | next | jumped | halted => rfl

theorem writes_opening (control : Control) (rules : Rules) (env : Environment) (l : Ledger) :
    World.Writes l.world (control.opening rules env l).world := by
  cases control with
  | create r => exact r.writes_opening rules _ l
  | call | next | jumped | halted => exact .refl

end Control

/-- A frame as it is entered from another one. -/
structure Frame.Entered (host : Host) (env : Environment) (gas : UInt64) (child : Frame) :
    Prop where
  fresh : child = Frame.start child.env child.target child.code gas
  depth : child.env.depth = env.depth + 1
  limit : child.env.depth ≤ host.rules.maxCallDepth
  tx : child.env.tx = env.tx
  static : env.isStatic = true → child.env.isStatic = true

theorem Frame.Entered.gas {host : Host} {env : Environment} {gas : UInt64} {child : Frame}
    (h : child.Entered host env gas) : child.gas = gas ∧ child.gasLimit = gas := by
  rw [h.fresh]
  exact ⟨rfl, rfl⟩

/-- The account that the frame is to put code into, if there is one, is there. -/
def Frame.Held (f : Frame) (w : World) : Prop :=
  ∀ a, f.target = .account a → (w.account? a).isSome

namespace Focus

variable {host : Host} {fetched : Fetched} {control : Control} {gas : UInt64}
  {action : Journaled (Prepared × ReturnTarget)} {s s' : Focus} {target : ReturnTarget}
  {l : Ledger}

/-- A frame that asks is otherwise as it was, and still running if it was. -/
theorem step_asks (stepped : s.step host fetched = .ok control s')
    (asks : control.Asks host s'.frame.env gas action) : ∃ price, s.Pays price s' := by
  cases asks with
  | call r =>
      obtain ⟨_, _, _, -, -, pays, -⟩ := step_call stepped
      exact ⟨_, pays⟩
  | create r =>
      obtain ⟨-, _, _, _, -, -, -, pays⟩ := step_create stepped
      exact ⟨_, pays⟩

/-- What is asked for is answered at once, or its frame is entered; only a payment can fail. -/
theorem step_prepares (stepped : s.step host fetched = .ok control s')
    (asks : control.Asks host s'.frame.env gas action) :
    Ensures action s'.ledger
      (fun answer l => control.Returns answer.2 ∧ answer.1.Follows gas
        (World.Writes (control.opening host.rules s'.frame.env s'.ledger).world)
        (fun child w => child.Entered host s'.frame.env gas ∧ control.Returns child.target ∧
          child.Held w)
        (control.opening host.rules s'.frame.env s'.ledger) l)
      (fun e l => l.saved = s'.ledger.saved ∧ e.Overflows s'.ledger.world) := by
  cases asks with
  | call r =>
      refine (CallRequest.prepare_ensures.mono (fun _ _ follows => follows) fun _ _ failed =>
        ⟨failed.1.2, failed.2⟩).bind fun prepared l follows => ?_
      refine .of_ok rfl ⟨rfl, follows.mono (fun _ moved => moved.writes) ?_⟩
      rintro child w - ⟨limit, code, rfl⟩
      refine ⟨⟨rfl, rfl, limit, rfl, fun static => ?_⟩, rfl, fun a held => by cases held⟩
      obtain ⟨_, _, _, -, -, -, rfl, -⟩ := step_call stepped
      show (s'.frame.env.isStatic || _) = true
      rw [static, Bool.true_or]
  | create r =>
      refine CreateRequest.prepare_ensures.bind fun (prepared, created) l ⟨address, follows⟩ => ?_
      refine .of_ok rfl ⟨⟨_, rfl⟩, follows.mono (fun _ made => made.1) ?_⟩
      rintro child w made ⟨limit, -, rfl⟩
      refine ⟨⟨rfl, rfl, limit, rfl, fun static => ?_⟩, ⟨address, rfl⟩, fun a held => ?_⟩
      · obtain ⟨mutable, _, _, _, -, -, -, pays⟩ := step_create stepped
        rw [pays.env, mutable] at static
        cases static
      · cases held
        exact made.2

theorem step_answered {result : CallResult} (stepped : s.step host fetched = .ok control s')
    (asks : control.Asks host s'.frame.env gas action)
    (set : action s'.ledger = .ok (.finished result, target) l) :
    result.Answers gas (World.Writes (control.opening host.rules s'.frame.env s'.ledger).world)
      (control.opening host.rules s'.frame.env s'.ledger) l :=
  ((step_prepares stepped asks).ok set).2

theorem step_entered {child : Frame} (stepped : s.step host fetched = .ok control s')
    (asks : control.Asks host s'.frame.env gas action)
    (set : action s'.ledger = .ok (.enter child, target) l) :
    child.Opens (World.Writes (control.opening host.rules s'.frame.env s'.ledger).world)
      (fun child w => child.Entered host s'.frame.env gas ∧ control.Returns child.target ∧
        child.Held w)
      (control.opening host.rules s'.frame.env s'.ledger) l :=
  ((step_prepares stepped asks).ok set).2

end Focus

/-- One iteration that does not end the run. -/
inductive Machine.Step (host : Host) : Machine → Machine → Prop
  | ran {f f' : Frame} {below : List Frame} {l l' : Ledger} {watch watch' : Watch}
      {control : Control} (running : f.isRunning = true)
      (stepped : Focus.step ⟨f, l⟩ host (f.fetch host watch.interrupted) = .ok control ⟨f', l'⟩)
      (quiet : control.isRequest = false) :
      Step host ⟨l, f :: below, watch⟩ ⟨l', f' :: below, watch'⟩
  | answered {f f₁ f' : Frame} {below : List Frame} {l l₁ l' : Ledger} {watch watch' : Watch}
      {control : Control} {gas : UInt64} {action : Journaled (Prepared × ReturnTarget)}
      {result : CallResult} {target : ReturnTarget} (running : f.isRunning = true)
      (stepped : Focus.step ⟨f, l⟩ host (f.fetch host watch.interrupted) = .ok control ⟨f₁, l₁⟩)
      (asks : control.Asks host f₁.env gas action)
      (set : action l₁ = .ok (.finished result, target) l')
      (absorbed : Frame.absorb result target f₁ = .ok () f') :
      Step host ⟨l, f :: below, watch⟩ ⟨l', f' :: below, watch'⟩
  | entered {f f₁ child : Frame} {below : List Frame} {l l₁ l' : Ledger} {watch watch' : Watch}
      {control : Control} {gas : UInt64} {action : Journaled (Prepared × ReturnTarget)}
      {target : ReturnTarget} (running : f.isRunning = true)
      (stepped : Focus.step ⟨f, l⟩ host (f.fetch host watch.interrupted) = .ok control ⟨f₁, l₁⟩)
      (asks : control.Asks host f₁.env gas action)
      (set : action l₁ = .ok (.enter child, target) l') :
      Step host ⟨l, f :: below, watch⟩ ⟨l', child :: f₁ :: below, watch'⟩
  | returned {f parent parent' : Frame} {below : List Frame} {l l' : Ledger} {watch : Watch}
      {result : CallResult} (ended : f.isRunning = false)
      (completed : f.complete host l = .ok result l')
      (absorbed : Frame.absorb result f.target parent = .ok () parent') :
      Step host ⟨l, f :: parent :: below, watch⟩ ⟨l', parent' :: below, watch⟩

/-- One iteration that ends the run with an error. -/
inductive Machine.Failure (host : Host) : Machine → EngineError → Machine → Prop
  | noFrame {l : Ledger} {watch : Watch} :
      Failure host ⟨l, [], watch⟩ (.run .noFrame) ⟨l, [], watch⟩
  | stopped {f f' : Frame} {below : List Frame} {l l' : Ledger} {watch watch' : Watch}
      {e : EngineError} (running : f.isRunning = true)
      (stepped : Focus.step ⟨f, l⟩ host (f.fetch host watch.interrupted) = .error e ⟨f', l'⟩) :
      Failure host ⟨l, f :: below, watch⟩ e ⟨l', f' :: below, watch'⟩
  | refused {f f₁ : Frame} {below : List Frame} {l l₁ l' : Ledger} {watch watch' : Watch}
      {control : Control} {gas : UInt64} {action : Journaled (Prepared × ReturnTarget)}
      {e : EngineError} (running : f.isRunning = true)
      (stepped : Focus.step ⟨f, l⟩ host (f.fetch host watch.interrupted) = .ok control ⟨f₁, l₁⟩)
      (asks : control.Asks host f₁.env gas action) (failed : action l₁ = .error e l') :
      Failure host ⟨l, f :: below, watch⟩ e ⟨l', f₁ :: below, watch'⟩
  | answered {f f₁ f' : Frame} {below : List Frame} {l l₁ l' : Ledger} {watch watch' : Watch}
      {control : Control} {gas : UInt64} {action : Journaled (Prepared × ReturnTarget)}
      {result : CallResult} {target : ReturnTarget} {cause : Fault} (running : f.isRunning = true)
      (stepped : Focus.step ⟨f, l⟩ host (f.fetch host watch.interrupted) = .ok control ⟨f₁, l₁⟩)
      (asks : control.Asks host f₁.env gas action)
      (set : action l₁ = .ok (.finished result, target) l')
      (refused : Frame.absorb result target f₁ = .error cause f') :
      Failure host ⟨l, f :: below, watch⟩ (.fault cause) ⟨l', f' :: below, watch'⟩
  | unfinished {f : Frame} {below : List Frame} {l l' : Ledger} {watch : Watch} {e : EngineError}
      (failed : f.complete host l = .error e l') :
      Failure host ⟨l, f :: below, watch⟩ e ⟨l', below, watch⟩
  | returned {f parent parent' : Frame} {below : List Frame} {l l' : Ledger} {watch : Watch}
      {result : CallResult} {cause : Fault} (completed : f.complete host l = .ok result l')
      (refused : Frame.absorb result f.target parent = .error cause parent') :
      Failure host ⟨l, f :: parent :: below, watch⟩ (.fault cause) ⟨l', parent' :: below, watch⟩

/-- What one iteration leads to. -/
inductive Machine.Leads (host : Host) : Machine → Progress → Prop
  | more {m m' : Machine} (step : Step host m m') : Leads host m (.more m')
  | finished {f : Frame} {l l' : Ledger} {watch : Watch} {result : CallResult}
      (ended : f.isRunning = false) (completed : f.complete host l = .ok result l') :
      Leads host ⟨l, [f], watch⟩ (.finished result ⟨l', [], watch⟩)
  | failed {m m' : Machine} {e : EngineError} (failure : Failure host m e m') :
      Leads host m (.failed e m')

namespace Machine

variable {host : Host} {m m' : Machine}

theorem Step.open (step : Step host m m') : m'.frames ≠ [] := by
  cases step <;> simp

theorem follow_eq (m : Machine) (host : Host) (control : Control) (f : Frame)
    (below : List Frame) :
    (control.isRequest = false ∧
      m.follow host control f below = .more { m with frames := f :: below }) ∨
    ∃ gas action, control.Asks host f.env gas action ∧
      m.follow host control f below = m.enter action f below := by
  cases control with
  | next | jumped | halted => exact .inl ⟨rfl, rfl⟩
  | call r => exact .inr ⟨_, _, .call r, rfl⟩
  | create r => exact .inr ⟨_, _, .create r, rfl⟩

theorem deliver_leads {n : Machine} {result : CallResult} {target : ReturnTarget} {f : Frame}
    {below : List Frame}
    (absorbed : ∀ f', Frame.absorb result target f = .ok () f' →
      Step host m { n with frames := f' :: below })
    (refused : ∀ cause f', Frame.absorb result target f = .error cause f' →
      Failure host m (.fault cause) { n with frames := f' :: below }) :
    Leads host m (n.deliver result target f below) := by
  simp only [deliver]
  split
  · next f' done => exact .more (absorbed f' done)
  · next cause f' failed => exact .failed (refused cause f' failed)

/-- Every iteration is one of the steps, the last one of a run, or one of the failures. -/
theorem advance_leads (m : Machine) (host : Host) : Leads host m (m.advance host) := by
  obtain ⟨l, frames, watch⟩ := m
  cases frames with
  | nil => exact .failed .noFrame
  | cons f below =>
      simp only [advance]
      split
      · next running =>
          split
          · next control s stepped =>
              obtain ⟨quiet, followed⟩ | ⟨gas, action, asks, followed⟩ :=
                follow_eq _ host control s.frame below
              · rw [followed]
                exact .more (.ran running stepped quiet)
              · rw [followed]
                simp only [enter]
                split
                · next failed => exact .failed (.refused running stepped asks failed)
                · next prepared target l' set =>
                    cases prepared with
                    | finished result =>
                        refine deliver_leads (fun f' absorbed => ?_) fun cause f' refused => ?_
                        · exact .answered running stepped asks set absorbed
                        · exact .answered running stepped asks set refused
                    | enter child => exact .more (.entered running stepped asks set)
          · next stepped => exact .failed (.stopped running stepped)
      · next waiting =>
          have ended := Bool.eq_false_iff.mpr waiting
          split
          · next failed => exact .failed (.unfinished failed)
          · next result l' completed =>
              cases below with
              | nil => exact .finished ended completed
              | cons parent rest =>
                  refine deliver_leads (fun f' absorbed => ?_) fun cause f' refused => ?_
                  · exact .returned ended completed absorbed
                  · exact .returned completed refused

theorem step_of_more (h : m.advance host = .more m') : Step host m m' := by
  have leads := m.advance_leads host
  rw [h] at leads
  cases leads with
  | more step => exact step

theorem last_of_finished {result : CallResult} (h : m.advance host = .finished result m') :
    ∃ f l watch, m = ⟨l, [f], watch⟩ ∧ f.isRunning = false ∧
      f.complete host l = .ok result m'.ledger := by
  have leads := m.advance_leads host
  rw [h] at leads
  cases leads with
  | finished ended completed => exact ⟨_, _, _, rfl, ended, completed⟩

theorem failure_of_failed {e : EngineError} (h : m.advance host = .failed e m') :
    Failure host m e m' := by
  have leads := m.advance_leads host
  rw [h] at leads
  cases leads with
  | failed failure => exact failure

end Machine
end EvmEngine
