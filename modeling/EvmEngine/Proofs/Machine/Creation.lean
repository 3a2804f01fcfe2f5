import EvmEngine.Proofs.Calls.Deposit
import EvmEngine.Proofs.Machine.Conservation
import EvmEngine.Proofs.Machine.Counter
import EvmEngine.Proofs.Machine.Requests
import EvmEngine.Proofs.Machine.Unspent

/-!
How a creation ends inside a run. The creator's nonce is raised first; then the init code runs, in a
frame that is what it was when it was entered, and comes to an end. What it returned becomes the code
of the new account, or everything since the nonce was raised is undone. Only a credit that does not
fit can keep a creation from either.
-/

namespace EvmEngine

open Effects

namespace CreateRequest

variable {r : CreateRequest} {host : Host} {tx : TxContext} {depth : UInt64} {address : Address}
  {l l' : Ledger}

/-- A creation that is not refused raises the creator's nonce before anything else. -/
theorem prepare_of_accepted (accepted : r.isRefused host.rules l depth = false) :
    r.prepare host tx depth l = (do
      let prepared ← r.enter host tx depth (r.addressFor (l.nonce r.creator))
      return (prepared, some (r.addressFor (l.nonce r.creator)))) (l.bumpNonce r.creator) := by
  have here : (get : Journaled Ledger) l = .ok l l := rfl
  have raised : (modify (·.bumpNonce r.creator) : Journaled Unit) l =
      .ok () (l.bumpNonce r.creator) := rfl
  rw [prepare]
  refine (bind_of_ok here).trans ?_
  rw [if_neg (Bool.eq_false_iff.mp accepted)]
  exact (bind_of_ok here).trans (bind_of_ok raised)

theorem action_of_accepted (accepted : r.isRefused host.rules l depth = false) :
    (do
      let (prepared, address) ← r.prepare host tx depth
      return (prepared, ReturnTarget.account (address.getD 0)) :
        Journaled (Prepared × ReturnTarget)) l =
    (do
      let prepared ← r.enter host tx depth (r.addressFor (l.nonce r.creator))
      return (prepared, ReturnTarget.account (r.addressFor (l.nonce r.creator))))
      (l.bumpNonce r.creator) := by
  have prepares : r.prepare host tx depth l = _ := prepare_of_accepted accepted
  generalize r.addressFor (l.nonce r.creator) = address at prepares ⊢
  cases entered : r.enter host tx depth address (l.bumpNonce r.creator) with
  | ok prepared l' =>
      rw [bind_of_ok entered] at prepares ⊢
      exact bind_of_ok prepares
  | error e l' =>
      rw [bind_of_error entered] at prepares ⊢
      exact bind_of_error prepares

/-- A creation that is set up finds the address taken or enters the init frame. -/
theorem enter_cases {prepared : Prepared} (h : r.enter host tx depth address l = .ok prepared l') :
    (collides l address = true ∧ l' = l ∧
      prepared = .finished (.ofFault r.gas (.addressCollision address))) ∨
    prepared = .enter (Frame.start (r.environment tx depth address) (.account address) r.initCode
      r.gas) := by
  rw [enter] at h
  obtain ⟨_, _, here, h⟩ := bind_eq_ok.mp h
  cases here
  split at h
  · next taken =>
      obtain ⟨rfl, rfl⟩ := pure_eq_ok.mp h
      exact .inl ⟨taken, rfl, rfl⟩
  · obtain ⟨_, _, -, h⟩ := bind_eq_ok.mp h
    obtain ⟨rfl, -⟩ := pure_eq_ok.mp h
    exact .inr rfl

end CreateRequest

/-- What a frame is from its entry on. -/
def Frame.origin (f : Frame) : Environment × ReturnTarget × ByteArray × UInt64 :=
  (f.env, f.target, f.code, f.gasLimit)

/-- What the init frame of a creation is from its entry on. -/
def CreateRequest.origin (r : CreateRequest) (tx : TxContext) (depth : UInt64) (address : Address) :
    Environment × ReturnTarget × ByteArray × UInt64 :=
  (r.environment tx depth address, .account address, r.initCode, r.gas)

theorem Focus.origin_of_step {s s' : Focus} {host : Host} {interrupted : Bool} {control : Control}
    (h : s.step host (s.frame.fetch host interrupted) = .ok control s') :
    s'.frame.origin = s.frame.origin := by
  have kept := Keeps.of_step_ok h
  simp only [Frame.origin, kept.env, kept.target, kept.gasLimit, (step_proceeds h).code]

theorem Frame.origin_of_absorb {f f' : Frame} {result : CallResult} {target : ReturnTarget}
    {u : Unit} (h : absorb result target f = .ok u f') : f'.origin = f.origin := by
  have resumes := absorb_ok h
  have same : f'.code = f.code := by
    rw [absorb_eq_ok h]
    exact (f.stays_resumed result target).code
  simp only [Frame.origin, resumes.env, resumes.target, resumes.gasLimit, same]

namespace Machine

variable {host : Host} {m m' : Machine} {start : World} {base : List World} {root : Frame}

/-- What the outermost frame is from its entry on. -/
def origin? (frames : List Frame) : Option (Environment × ReturnTarget × ByteArray × UInt64) :=
  frames.getLast?.map Frame.origin

theorem origin?_replace {f f' : Frame} (below : List Frame) (same : f'.origin = f.origin) :
    origin? (f' :: below) = origin? (f :: below) := by
  cases below with
  | nil => exact congrArg some same
  | cons parent rest => simp [origin?]

theorem Step.origin? (step : Step host m m') : origin? m'.frames = origin? m.frames := by
  cases step with
  | ran running stepped quiet => exact origin?_replace _ (Focus.origin_of_step stepped)
  | answered running stepped asks set absorbed =>
      exact origin?_replace _
        ((Frame.origin_of_absorb absorbed).trans (Focus.origin_of_step stepped))
  | entered running stepped asks set =>
      refine Eq.trans ?_ (origin?_replace _ (Focus.origin_of_step stepped))
      simp [Machine.origin?]
  | @returned f parent _ below _ _ _ _ ended completed absorbed =>
      refine (origin?_replace below (Frame.origin_of_absorb absorbed)).trans ?_
      simp [Machine.origin?]

/-- What is known of a run whose outermost frame is given as it was entered. -/
structure Hosts (root : Frame) (start : World) (base : List World) (m : Machine) : Prop where
  entered : root.Fresh
  sound : Sound start base m
  budget : Budgeted 0 m.frames
  origin : origin? m.frames = some root.origin
  unspent : Unspent root m

theorem Step.hosts (covers : host.rules.gas.CoversStipend) (charges : host.rules.gas.Charges)
    (step : Step host m m') (h : Hosts root start base m) : Hosts root start base m' where
  entered := h.entered
  sound := step.sound h.sound
  budget := (step.gas covers).budgeted h.budget
  origin := step.origin?.trans h.origin
  unspent := step.unspent covers charges h.entered h.unspent

theorem hosts_root {l : Ledger} {watch : Watch} (entered : root.Fresh)
    (sound : Sound start base ⟨l, [root], watch⟩) : Hosts root start base ⟨l, [root], watch⟩ where
  entered := entered
  sound := sound
  budget := ⟨by rw [entered.full, Nat.zero_add], trivial⟩
  origin := rfl
  unspent := .fresh rfl

/-- The innermost frame, above those that wait, was entered with this; it has ended, as `c`, and
left this world. -/
structure Ended (origin : Environment × ReturnTarget × ByteArray × UInt64) (waiting : List Frame)
    (m : Machine) (c : Frame) (left : World) : Prop where
  frames : m.frames = c :: waiting
  stopped : c.isRunning = false
  origin : c.origin = origin
  world : m.ledger.world = left

/-- The outermost frame of a run, where it was to create an account, founds it or is undone. -/
theorem Hosts.founds {address : Address} {result : CallResult} (h : Hosts root start base m)
    (target : root.target = .account address)
    (done : m.advance host = .finished result m') :
    ∃ c left, Ended root.origin [] m c left ∧
      (result.Founds host.rules address c.result left m'.ledger.world ∨
        result.Undone start m'.ledger.world ∧ c.result.Rejected host.rules) := by
  obtain ⟨c, l, watch, rfl, stopped, completed⟩ := last_of_finished done
  have origin : c.origin = root.origin := Option.some.inj h.origin
  have goal : c.target = .account address := (congrArg (·.2.1) origin).trans target
  have traced := h.sound.traced
  obtain ⟨w, rest, saved⟩ := traced.saved_eq
  rw [saved] at traced
  obtain ⟨-, held, rfl, -⟩ := traced
  have within := h.budget.within c List.mem_cons_self
  have few (success : c.result.success = true) :
      c.gas.toNat + 1 < UInt64.size ∨ c.output.size = 0 := by
    have bound := root.gas.toNat_lt_size
    exact (h.unspent.last h.entered rfl stopped success).imp_left fun spent => by omega
  refine ⟨c, l.world, ⟨rfl, stopped, origin, rfl⟩, ?_⟩
  exact Frame.complete_founds goal saved (held address goal) within few completed

/-- The two ways in which a creation at an address ends. The init code has ended as `ran` tells, in
the frame it was run in and in the world it left; or it was never run, where the address was
taken. -/
inductive CreationEnds (rules : Rules) (raised : Ledger) (address : Address)
    (ran : Frame → World → Prop) (result : CallResult) (after : World) : Prop
  | founded {c : Frame} {left : World} (ended : ran c left)
      (founds : result.Founds rules address c.result left after)
  | undone (undone : result.Undone raised.world after)
      (cause : CreateRequest.collides raised address = true ∨
        ∃ c left, ran c left ∧ c.result.Rejected rules)

/-- The word that a frame is told: the address where there is an account now, and zero otherwise. -/
theorem CreationEnds.flag {rules : Rules} {raised : Ledger} {address : Address}
    {ran : Frame → World → Prop} {result : CallResult} {after : World}
    (h : CreationEnds rules raised address ran result after) :
    result.flag (.account address) = if result.success then address.toWord else 0 := by
  cases h with
  | founded ended founds => simp only [CallResult.flag, founds.created, founds.success, if_true]
  | undone undone cause =>
      rw [CallResult.flag_of_failure undone.failed, undone.failed]
      rfl

section
variable {target : ReturnTarget} {n : Nat}

/-- A run of its own goes the same way above frames that wait. -/
theorem iterate_more_above {inner : Machine} (ground : List Frame)
    (goal : goal? m.frames = some target) (reached : iterate host n m = .more inner) :
    iterate host n (m.above ground) = .more (inner.above ground) ∧
      goal? inner.frames = some target := by
  induction n generalizing m with
  | zero =>
      cases reached
      exact ⟨rfl, goal⟩
  | succ n ih =>
      simp only [iterate] at reached
      split at reached
      · next next advanced =>
          obtain ⟨rest, kept⟩ := ih ((step_of_more advanced).goal?.trans goal) reached
          refine ⟨?_, kept⟩
          simp only [iterate, advance_above ground goal, advanced, Progress.onto]
          exact rest
      · next other stops => exact (stops inner reached).elim

theorem more_of_le {j : Nat} {last : Machine} (reached : iterate host n m = .more last)
    (le : j ≤ n) : ∃ mid, iterate host j m = .more mid := by
  induction j generalizing m n with
  | zero => exact ⟨m, rfl⟩
  | succ j ih =>
      obtain ⟨k, rfl⟩ := Nat.exists_eq_add_of_lt le
      rw [show j + k + 1 = (j + k) + 1 from rfl, iterate] at reached
      split at reached
      · next next advanced =>
          obtain ⟨mid, reaches⟩ := ih reached (Nat.le_add_right j k)
          exact ⟨mid, by simp only [iterate, advanced, reaches]⟩
      · next other stops => exact (stops last reached).elim

theorem iterate_of_more (advanced : m.advance host = .more m') (n : Nat) :
    iterate host (n + 1) m = iterate host n m' := by
  simp only [iterate, advanced]

theorem iterate_succ {last : Machine} (reached : iterate host n m = .more last) :
    iterate host (n + 1) m = last.advance host := by
  induction n generalizing m with
  | zero =>
      cases reached
      exact iterate_one host last
  | succ n ih =>
      rw [iterate] at reached
      split at reached
      · next next advanced => exact (iterate_of_more advanced (n + 1)).trans (ih reached)
      · next other stops => exact (stops last reached).elim

/-- A run that stops does so in an iteration that it gets to. -/
theorem last_of_stopped (n : Nat) :
    (∀ result m', iterate host n m = .finished result m' →
      ∃ k last, iterate host k m = .more last ∧ last.advance host = .finished result m') ∧
    ∀ e m', iterate host n m = .failed e m' →
      ∃ k last, iterate host k m = .more last ∧ last.advance host = .failed e m' := by
  obtain ⟨-, finished, failed⟩ := iterate_holds (P := fun mid => ∃ k, iterate host k m = .more mid)
    (fun _ _ advanced ⟨k, reached⟩ => ⟨k + 1, (iterate_succ reached).trans advanced⟩) n ⟨0, rfl⟩
  refine ⟨fun result m' ended => ?_, fun e m' ended => ?_⟩
  · obtain ⟨last, ⟨k, reached⟩, done⟩ := finished result m' ended
    exact ⟨k, last, reached, done⟩
  · obtain ⟨last, ⟨k, reached⟩, done⟩ := failed e m' ended
    exact ⟨k, last, reached, done⟩

/-- A run of its own gets to an iteration in which it stops. -/
theorem exists_last {child : Frame} {l : Ledger} {watch : Watch}
    (covers : host.rules.gas.CoversStipend) (charges : host.rules.gas.Charges) :
    ∃ k last, iterate host k ⟨l, [child], watch⟩ = .more last ∧
      ((∃ result m', last.advance host = .finished result m') ∨
        ∃ e m', last.advance host = .failed e m') := by
  obtain ⟨finished, failed⟩ :=
    @last_of_stopped host ⟨l, [child], watch⟩ (3 * child.gas.toNat + 2)
  cases ended : iterate host (3 * child.gas.toNat + 2) ⟨l, [child], watch⟩ with
  | more m' => exact absurd ended (iterate_ends covers charges (Nat.le_refl _))
  | finished result m' =>
      obtain ⟨k, last, reached, done⟩ := finished result m' ended
      exact ⟨k, last, reached, .inl ⟨result, m', done⟩⟩
  | failed e m' =>
      obtain ⟨k, last, reached, done⟩ := failed e m' ended
      exact ⟨k, last, reached, .inr ⟨e, m', done⟩⟩

theorem last_of_run {l : Ledger} {watch : Watch} {result : CallResult}
    (answered : (run host root l watch).result = .ok result) :
    ∃ k last m', iterate host k ⟨l, [root], watch⟩ = .more last ∧
      last.advance host = .finished result m' ∧ (run host root l watch).ledger = m'.ledger := by
  simp only [run] at answered ⊢
  -- The number of iterations is a variable, so that it is never computed.
  generalize iterationBound root.gas = n at answered ⊢
  obtain ⟨m', ended, ledger⟩ := finished_of_outcome answered
  obtain ⟨k, last, reached, done⟩ := (last_of_stopped n).1 result m' ended
  exact ⟨k, last, m', reached, done, ledger⟩

end

section
variable {f f₁ : Frame} {below : List Frame} {l₁ : Ledger} {r : CreateRequest}

theorem advance_request {control : Control} {gas : UInt64}
    {action : Journaled (Prepared × ReturnTarget)} (frames : m.frames = f :: below)
    (running : f.isRunning = true)
    (stepped : Focus.step ⟨f, m.ledger⟩ host (f.fetch host m.watch.interrupted) =
      .ok control ⟨f₁, l₁⟩)
    (asks : control.Asks host f₁.env gas action) :
    ∃ watch, m.advance host = enter ⟨l₁, m.frames, watch⟩ action f₁ below := by
  obtain ⟨l, _, watch⟩ := m
  cases frames
  simp only [advance, running, if_true]
  rw [stepped]
  cases asks <;> exact ⟨_, rfl⟩

/-- A request that is answered at once: the frame goes on with the answer. -/
theorem Sound.told {control : Control} {gas : UInt64} {l₂ : Ledger}
    {action : Journaled (Prepared × ReturnTarget)} {answer : CallResult} {target : ReturnTarget}
    (h : Sound start base m) (frames : m.frames = f :: below) (running : f.isRunning = true)
    (stepped : Focus.step ⟨f, m.ledger⟩ host (f.fetch host m.watch.interrupted) =
      .ok control ⟨f₁, l₁⟩)
    (asks : control.Asks host f₁.env gas action)
    (set : action l₁ = .ok (.finished answer, target) l₂) :
    ∃ watch, m.advance host = .more ⟨l₂, f₁.resumed answer target :: below, watch⟩ := by
  obtain ⟨watch, advanced⟩ := advance_request frames running stepped asks
  have few := (frames ▸ h.roomy : Roomy (f :: below)).running running
  -- A frame that asks has taken three words from its stack.
  have taken := Focus.size_of_step stepped asks
  have absorbs : Frame.absorb answer target f₁ = .ok () (f₁.resumed answer target) := by
    rw [Frame.absorb_eq, if_neg]
    dsimp only at taken
    omega
  exact ⟨watch, by simp only [advanced, enter, set, deliver, absorbs]⟩

/-- An init frame that has been entered above frames that wait ends in one of the two ways, and the
first of these goes on; or the run ends over a credit that does not fit. -/
theorem Sound.init_ends {child : Frame} {l₂ : Ledger} {watch : Watch} {address : Address}
    {opened : World} {saved : List World} (covers : host.rules.gas.CoversStipend)
    (charges : host.rules.gas.Charges)
    (h : Sound start base ⟨l₂, child :: f₁ :: below, watch⟩)
    (hosts : Hosts child opened saved ⟨l₂, [child], watch⟩)
    (target : child.target = .account address) :
    (∃ n last m' result, iterate host n ⟨l₂, child :: f₁ :: below, watch⟩ = .more last ∧
      (∀ j mid, j ≤ n → iterate host j ⟨l₂, child :: f₁ :: below, watch⟩ = .more mid →
        below.length + 1 < mid.frames.length) ∧
      last.advance host = .more m' ∧
      m'.frames = f₁.resumed result (.account address) :: below ∧
      ∃ c left, Ended child.origin (f₁ :: below) last c left ∧
        (result.Founds host.rules address c.result left m'.ledger.world ∨
          result.Undone opened m'.ledger.world ∧ c.result.Rejected host.rules)) ∨
    ∃ n e m', iterate host n ⟨l₂, child :: f₁ :: below, watch⟩ = .failed e m' ∧
      e.Overflows start := by
  obtain ⟨k, inner, reached, ends⟩ := @exists_last host child l₂ watch covers charges
  have goal : goal? [child] = some (.account address) := congrArg some target
  obtain ⟨above, goal'⟩ := iterate_more_above (f₁ :: below) goal reached
  have above : iterate host k ⟨l₂, child :: f₁ :: below, watch⟩ =
    .more (inner.above (f₁ :: below)) := above
  have hosts' := (iterate_keeps (fun _ _ step => step.hosts covers charges) k hosts).1 inner reached
  have advanced : (inner.above (f₁ :: below)).advance host = _ := advance_above _ goal'
  obtain ⟨result, after, done⟩ | ⟨e, after, failed⟩ := ends
  · obtain ⟨_, absorbed⟩ := h.absorbs result (.account address)
    obtain rfl := Frame.absorb_eq_ok absorbed
    simp only [done, Progress.onto, deliver, absorbed] at advanced
    obtain ⟨c, left, ended, ways⟩ := hosts'.founds target done
    refine .inl ⟨k, _, _, result, above, fun j mid le mids => ?_, advanced, rfl, c, left, ?_, ways⟩
    · obtain ⟨own, reaches⟩ := more_of_le reached le
      have same := (iterate_more_above (f₁ :: below) goal reaches).1
      cases mids.symm.trans same
      have some := (iterate_keeps (fun _ _ step => step.hosts covers charges) j hosts).1 own reaches
      have positive := List.length_pos_of_ne_nil some.sound.nonempty
      simp only [Machine.above, List.length_append, List.length_cons]
      omega
    · exact ⟨by rw [Machine.above, ended.frames]; rfl, ended.stopped, ended.origin, ended.world⟩
  · simp only [failed, Progress.onto] at advanced
    have sound := (iterate_keeps (fun _ _ step => step.sound) k h).1 _ above
    exact .inr ⟨k + 1, e, _, (iterate_succ above).trans advanced, sound.overflows advanced⟩

/-- A creation that a frame of a run asks for, and that is not refused, ends in one of the two ways,
and the frame goes on with the word that tells which; or the run ends over a credit that does not
fit. -/
theorem Sound.creation_ends {address : Address} (covers : host.rules.gas.CoversStipend)
    (charges : host.rules.gas.Charges) (h : Sound start base m) (frames : m.frames = f :: below)
    (running : f.isRunning = true)
    (stepped : Focus.step ⟨f, m.ledger⟩ host (f.fetch host m.watch.interrupted) =
      .ok (.create r) ⟨f₁, l₁⟩)
    (accepted : r.isRefused host.rules l₁ (f₁.env.depth + 1) = false)
    (derived : r.addressFor (l₁.nonce r.creator) = address) :
    (∃ last m' result, Requested host m last m' (.create r) f₁ below l₁ ∧
      m'.frames = f₁.resumed result (.account address) :: below ∧
      CreationEnds host.rules (l₁.bumpNonce r.creator) address
        (Ended (r.origin f₁.env.tx (f₁.env.depth + 1) address) (f₁ :: below) last)
        result m'.ledger.world) ∨
    ∃ n e m', iterate host n m = .failed e m' ∧ e.Overflows start := by
  have asks : (Control.create r).Asks host f₁.env r.gas _ := .create r
  have set := @CreateRequest.action_of_accepted r host f₁.env.tx _ l₁ accepted
  rw [derived] at set
  obtain ⟨watch, advanced⟩ := advance_request frames running stepped asks
  have requested {last m' : Machine} {n : Nat} {g : Frame} (reached : iterate host n m = .more last)
      (inside : ∀ j mid, 0 < j → j ≤ n → iterate host j m = .more mid →
        m.frames.length < mid.frames.length)
      (returns : last.advance host = .more m') (goesOn : m'.frames = g :: below) :
      Requested host m last m' (.create r) f₁ below l₁ :=
    ⟨⟨f, frames, running, stepped⟩, rfl, ⟨n, reached, inside⟩, returns, by rw [goesOn, frames]; rfl⟩
  cases entered : r.enter host f₁.env.tx (f₁.env.depth + 1) address (l₁.bumpNonce r.creator) with
  | error e l' =>
      rw [bind_of_error entered] at set
      simp only [enter, set] at advanced
      exact .inr ⟨1, e, _, by simp only [iterate, advanced]; rfl, h.overflows advanced⟩
  | ok prepared l₂ =>
      have set := set.trans ((bind_of_ok entered).trans rfl :
        _ = EStateM.Result.ok (prepared, ReturnTarget.account address) l₂)
      obtain ⟨taken, rfl, rfl⟩ | rfl := CreateRequest.enter_cases entered
      · -- The address is taken, and the frame is told at once.
        have answer : (CallResult.ofFault r.gas (.addressCollision address)).Undone
            (l₁.bumpNonce r.creator).world (l₁.bumpNonce r.creator).world := ⟨rfl, rfl, rfl⟩
        obtain ⟨_, told⟩ := h.told frames running stepped asks set
        have asked := requested (n := 0) rfl
          (fun j _ some le => absurd le (Nat.not_le.mpr some)) told rfl
        exact .inl ⟨m, _, _, asked, rfl, .undone answer (.inl taken)⟩
      · simp only [enter, set] at advanced
        have opens := Focus.step_entered stepped asks set
        have opened : (Control.create r).opening host.rules f₁.env l₁ = l₁.bumpNonce r.creator :=
          if_neg (Bool.eq_false_iff.mp accepted)
        rw [opened] at opens
        have sound := (step_of_more advanced).sound h
        have hosts : Hosts _ _ _ ⟨_, _, watch⟩ := hosts_root (Frame.fresh_start _ _ _ _)
          (sound_root (Nat.zero_le _) opens.saved opens.moved opens.enters.2.2)
        have later := iterate_of_more advanced
        obtain ⟨n, last, m', result, reached, inside, returns, goesOn, c, left, ended, ways⟩ |
          ⟨n, e, m', failed, overflows⟩ := sound.init_ends covers charges hosts rfl
        · have asked := requested ((later n).trans reached) (fun j mid some le mids => ?_) returns
            goesOn
          · refine .inl ⟨last, m', result, asked, goesOn, ?_⟩
            obtain founds | ⟨undone, rejected⟩ := ways
            · exact .founded ended founds
            · exact .undone undone (.inr ⟨c, left, ended, rejected⟩)
          · rw [← Nat.sub_add_cancel some, later] at mids
            rw [frames]
            exact inside (j - 1) mid (by omega) mids
        · exact .inr ⟨n + 1, e, m', (later n).trans failed, overflows⟩

end

/-- What the innermost frame asks to be created, and how that frame and the ledger are by then. -/
def creation? (m : Machine) (host : Host) : Option (CreateRequest × Focus) :=
  match m.frames with
  | [] => none
  | f :: _ =>
      match f.isRunning, Focus.step ⟨f, m.ledger⟩ host (f.fetch host m.watch.interrupted) with
      | true, .ok (.create r) s => some (r, s)
      | _, _ => none

theorem asked_of_creation? {r : CreateRequest} {s : Focus} (h : m.creation? host = some (r, s)) :
    ∃ f below, m.frames = f :: below ∧ f.isRunning = true ∧
      Focus.step ⟨f, m.ledger⟩ host (f.fetch host m.watch.interrupted) = .ok (.create r) s := by
  simp only [creation?] at h
  split at h
  · cases h
  · next f below frames =>
      split at h
      · next running stepped =>
          cases h
          exact ⟨f, below, frames, running, stepped⟩
      · cases h

end Machine
end EvmEngine
