import EvmEngine.Proofs.Calls.Lockstep
import EvmEngine.Proofs.Frame.Absorb
import EvmEngine.Proofs.Instruction.Lockstep

/-!
Whole runs in lockstep. Two machines with the same frames over ledgers that agree in all that can be
read, and watches whose flags agree for good, take the same steps, one after the other, and end with
the same outcome.
-/

namespace EvmEngine

open Effects Instruction Ledger

/-- A relation between watches that no run can tell apart: the flag is set in both or in neither,
and so it is whatever they see dispatched. -/
structure Watch.Bisimulation (W : Watch → Watch → Prop) : Prop where
  interrupted {w w' : Watch} (h : W w w') : w'.interrupted = w.interrupted
  dispatch {w w' : Watch} (h : W w w') (event : Event) : W (w.dispatch event) (w'.dispatch event)

/-- What is fetched is seen by both if it is dispatched. -/
theorem Watch.Bisimulation.after {W : Watch → Watch → Prop} (watches : Watch.Bisimulation W)
    {w w' : Watch} (seen : W w w') (fetched : Fetched) (event : OpcodeEntry → Event) :
    W (match fetched with | .instruction entry => w.dispatch (event entry) | _ => w)
      (match fetched with | .instruction entry => w'.dispatch (event entry) | _ => w') := by
  cases fetched with
  | instruction entry => exact watches.dispatch seen (event entry)
  | interrupted | endOfCode | illegal => exact seen

theorem Watch.bisimulation_eq : Watch.Bisimulation Eq where
  interrupted h := congrArg Watch.interrupted h.symm
  dispatch h event := congrArg (Watch.dispatch · event) h

/-- Machines with the same frames, which run in the block given, over ledgers that are related and
have a checkpoint for each frame, with watches that are related. -/
structure Machine.Twins (block : Block) (W : Watch → Watch → Prop)
    (R : Nat → Ledger → Ledger → Prop) (m m' : Machine) : Prop where
  frames : m'.frames = m.frames
  watch : W m.watch m'.watch
  block : ∀ f ∈ m.frames, f.env.block = block
  ledger : R m.frames.length m.ledger m'.ledger

/-- The same thing happens to twin machines. -/
inductive Progress.Twins (block : Block) (W : Watch → Watch → Prop)
    (R : Nat → Ledger → Ledger → Prop) : Progress → Progress → Prop
  | more {m m' : Machine} (twins : m.Twins block W R m') : Twins block W R (.more m) (.more m')
  | finished {m m' : Machine} (result : CallResult) (watch : W m.watch m'.watch)
      (ledger : R 0 m.ledger m'.ledger) :
      Twins block W R (.finished result m) (.finished result m')
  | failed {m m' : Machine} (e : EngineError) (twins : m.Twins block W R m') :
      Twins block W R (.failed e m) (.failed e m')

/-- Outcomes that differ only in watches and ledgers, which are related. -/
structure RunOutcome.Twins (W : Watch → Watch → Prop) (R : Ledger → Ledger → Prop)
    (o o' : RunOutcome) : Prop where
  result : o'.result = o.result
  watch : W o.watch o'.watch
  ledger : R o.ledger o'.ledger

namespace Machine

variable {host : Host} {hashes : UInt64 → Option Hash} {block : Block}
  {W : Watch → Watch → Prop} {R : Nat → Ledger → Ledger → Prop} {m m' : Machine} {l l' : Ledger}
  {watch watch' : Watch} {frame : Frame} {below : List Frame}

theorem twins_cons (seen : W watch watch') (inBlock : frame.env.block = block)
    (rest : ∀ f ∈ below, f.env.block = block) (related : R (below.length + 1) l l') :
    Twins block W R ⟨l, frame :: below, watch⟩ ⟨l', frame :: below, watch'⟩ where
  frames := rfl
  watch := seen
  block := List.forall_mem_cons.mpr ⟨inBlock, rest⟩
  ledger := related

theorem deliver_twins {frames : List Frame} (result : CallResult) (target : ReturnTarget)
    (seen : W watch watch') (inBlock : frame.env.block = block)
    (rest : ∀ f ∈ below, f.env.block = block) (related : R (below.length + 1) l l') :
    Progress.Twins block W R
      (deliver ⟨l, frames, watch⟩ result target frame below)
      (deliver ⟨l', frames, watch'⟩ result target frame below) := by
  simp only [deliver]
  cases absorbed : Frame.absorb result target frame with
  | ok _ f =>
      refine .more (twins_cons seen ?_ rest related)
      rw [(Frame.absorb_ok absorbed).env, inBlock]
  | error cause f =>
      refine .failed _ (twins_cons seen ?_ rest related)
      rw [Frame.absorb_eq] at absorbed
      split at absorbed
      · cases absorbed
        cases target <;> exact inBlock
      · cases absorbed

theorem enter_twins {frames : List Frame} {action : Journaled (Prepared × ReturnTarget)}
    (seen : W watch watch') (inBlock : frame.env.block = block)
    (rest : ∀ f ∈ below, f.env.block = block)
    (both : Parallel (fun answer => answer.1.Twins block R (below.length + 1))
      (fun _ => R (below.length + 1)) (action l) (action l')) :
    Progress.Twins block W R (enter ⟨l, frames, watch⟩ action frame below)
      (enter ⟨l', frames, watch'⟩ action frame below) := by
  simp only [enter]
  generalize action l = r, action l' = r' at both
  cases both with
  | error related => exact .failed _ (twins_cons seen inBlock rest related)
  | @ok answer _ _ related =>
      obtain ⟨prepared, target⟩ := answer
      cases prepared with
      | finished result => exact deliver_twins result target seen inBlock rest related
      | enter child =>
          obtain ⟨entered, related⟩ := related
          exact .more (twins_cons seen entered (List.forall_mem_cons.mpr ⟨inBlock, rest⟩) related)

theorem follow_twins (bisim : Bisimulation host.rules R) {frames : List Frame} (control : Control)
    (seen : W watch watch') (inBlock : frame.env.block = block)
    (rest : ∀ f ∈ below, f.env.block = block) (related : R (below.length + 1) l l') :
    Progress.Twins block W R (follow ⟨l, frames, watch⟩ host control frame below)
      (follow ⟨l', frames, watch'⟩ (host.withHashes hashes) control frame below) := by
  cases control with
  | next | jumped | halted => exact .more (twins_cons seen inBlock rest related)
  | call r =>
      refine enter_twins seen inBlock rest ?_
      have both := r.prepare_parallel bisim frame.env.tx (frame.env.depth + 1) related
      exact both.bind fun _ _ _ twins => .of_pure (inBlock ▸ twins)
  | create r =>
      refine enter_twins seen inBlock rest ?_
      have both := r.prepare_parallel bisim frame.env.tx (frame.env.depth + 1) related
      exact both.bind fun _ _ _ twins => .of_pure (inBlock ▸ twins)

/-- One iteration does the same to twin machines. -/
theorem advance_twins (bisim : Bisimulation host.rules R) (watches : Watch.Bisimulation W)
    (agree : host.AgreesOn hashes block) (twins : m.Twins block W R m') :
    Progress.Twins block W R (m.advance host) (m'.advance (host.withHashes hashes)) := by
  obtain ⟨l, _, watch⟩ := m
  obtain ⟨l', frames, watch'⟩ := m'
  obtain ⟨same, seen, inBlock, related⟩ := twins
  dsimp only at same seen inBlock related
  subst same
  cases frames with
  | nil => exact .failed _ ⟨rfl, seen, inBlock, related⟩
  | cons frame below =>
      obtain ⟨inBlock, rest⟩ := List.forall_mem_cons.mp inBlock
      simp only [advance]
      cases frame.isRunning with
      | true =>
          have both := Focus.step_parallel bisim agree (frame.fetch host watch.interrupted)
            (s := ⟨frame, l⟩) (t := ⟨frame, l'⟩) ⟨rfl, inBlock, related⟩
          rw [if_pos rfl, if_pos rfl]
          -- Both hosts have one table, so that the same instruction is fetched.
          have fetched : frame.fetch (host.withHashes hashes) watch'.interrupted =
              frame.fetch host watch.interrupted :=
            congrArg (frame.fetch host) (watches.interrupted seen)
          rw [fetched]
          generalize frame.fetch host watch.interrupted = fetched at both ⊢
          have seen := watches.after seen fetched fun entry => frame.event entry.opcode
          generalize Focus.step ⟨frame, l⟩ host _ = r, Focus.step ⟨frame, l'⟩ _ _ = r' at both
          cases both with
          | @ok control s t twins =>
              dsimp only
              rw [twins.frame]
              exact follow_twins bisim control seen twins.block rest twins.ledger
          | @error e s t twins =>
              dsimp only
              rw [twins.frame]
              exact .failed e (twins_cons seen twins.block rest twins.ledger)
      | false =>
          have both := frame.complete_parallel bisim related
          have completes : frame.complete (host.withHashes hashes) = frame.complete host := rfl
          rw [if_neg Bool.false_ne_true, if_neg Bool.false_ne_true, completes]
          generalize frame.complete host l = r, frame.complete host l' = r' at both
          cases both with
          | error related => exact .failed _ ⟨rfl, seen, rest, related⟩
          | @ok result k k' related =>
              cases below with
              | nil => exact .finished result seen related
              | cons parent below =>
                  obtain ⟨inBlock, rest⟩ := List.forall_mem_cons.mp rest
                  exact deliver_twins result frame.target seen inBlock rest related

/-- Any number of iterations does the same to twin machines. -/
theorem iterate_twins (bisim : Bisimulation host.rules R) (watches : Watch.Bisimulation W)
    (agree : host.AgreesOn hashes block) (fuel : Nat) (twins : m.Twins block W R m') :
    Progress.Twins block W R (iterate host fuel m) (iterate (host.withHashes hashes) fuel m') := by
  induction fuel generalizing m m' with
  | zero => exact .more twins
  | succ fuel ih =>
      have both := advance_twins bisim watches agree twins
      simp only [iterate]
      generalize m.advance host = p, m'.advance (host.withHashes hashes) = p' at both
      cases both with
      | more twins => exact ih twins
      | finished result seen related => exact .finished result seen related
      | failed e twins => exact .failed e twins

theorem unwind_related (bisim : Bisimulation host.rules R) (twins : m.Twins block W R m') :
    R 0 m.unwind m'.unwind := by
  have related := twins.ledger
  rw [unwind, unwind, twins.frames]
  generalize m.frames = frames, m.ledger = l, m'.ledger = l' at related ⊢
  induction frames generalizing l l' with
  | nil => exact related
  | cons frame below ih => exact ih _ _ (Journaled.discard_related bisim related)

end Machine

theorem Progress.Twins.outcome {host : Host} {block : Block} {W : Watch → Watch → Prop}
    {R : Nat → Ledger → Ledger → Prop} {p p' : Progress} (bisim : Bisimulation host.rules R)
    (twins : p.Twins block W R p') : p.outcome.Twins W (R 0) p'.outcome := by
  cases twins with
  | more twins => exact ⟨rfl, twins.watch, Machine.unwind_related bisim twins⟩
  | finished result seen related => exact ⟨rfl, seen, related⟩
  | failed e twins => exact ⟨rfl, twins.watch, Machine.unwind_related bisim twins⟩

/-- The run of a frame has the same result on ledgers that agree in all that can be read. -/
theorem Machine.run_twins {host : Host} {hashes : UInt64 → Option Hash} {block : Block}
    {W : Watch → Watch → Prop} {R : Nat → Ledger → Ledger → Prop} {l l' : Ledger}
    {watch watch' : Watch} (bisim : Bisimulation host.rules R) (watches : Watch.Bisimulation W)
    (agree : host.AgreesOn hashes block) (root : Frame) (seen : W watch watch')
    (inBlock : root.env.block = block) (related : R 1 l l') :
    (run host root l watch).Twins W (R 0) (run (host.withHashes hashes) root l' watch') := by
  have twins : Twins block W R ⟨l, [root], watch⟩ ⟨l', [root], watch'⟩ :=
    twins_cons seen inBlock (by simp) related
  exact (iterate_twins bisim watches agree (iterationBound root.gas) twins).outcome bisim

end EvmEngine
