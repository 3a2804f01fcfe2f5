import EvmEngine.Proofs.Machine.Conservation
import EvmEngine.Proofs.Machine.Requests

/-!
A call or a creation that fails leaves no trace. However much the frames below it have done, the world
goes back to what it was when its checkpoint was opened, and the frame that asked gets nothing but
the gas that is left, the word for failure and the output, of which a call copies the first bytes to
the span that was paid for beforehand.
-/

namespace EvmEngine

open Effects

namespace ReturnTarget

/-- Memory already covers the span that output may be copied to. -/
def Fits (m : Memory) : ReturnTarget → Prop
  | span offset length => m.Covers offset length
  | account _ => True

/-- What output does to memory: it replaces the first bytes of the span, where there is one, as many
as it has or the span holds. -/
def Takes (output : ByteArray) (m m' : Memory) : ReturnTarget → Prop
  | span offset length => m.Puts offset (output.extract 0 (min length output.size)) m'
  | account _ => m' = m

end ReturnTarget

/-- A frame that goes on after a request that failed. Nothing is new but the gas that was left, a
zero on its stack, and the output, which is kept and goes to its target. -/
structure Frame.ResumesEmpty (f : Frame) (result : CallResult) (target : ReturnTarget)
    (f' : Frame) : Prop where
  same : f' = { f with
    gas := Gas.satAdd f.gas result.gasLeft
    stack := ⟨0 :: f.stack.words⟩
    returnData := result.returnData
    memory := f'.memory }
  memory : target.Takes result.returnData f.memory f'.memory

theorem Frame.resumesEmpty_resumed {f : Frame} {result : CallResult} {target : ReturnTarget}
    (failed : result.success = false) (fits : target.Fits f.memory) (paged : f.memory.Paged) :
    f.ResumesEmpty result target (f.resumed result target) := by
  simp only [Frame.resumed, failed, CallResult.flag_of_failure failed]
  cases target with
  | span offset length => exact ⟨rfl, Memory.Covers.puts fits paged _⟩
  | account address =>
      refine ⟨?_, rfl⟩
      simp [Frame.receive, Frame.returnGas, failed]

theorem Focus.step_fits {host : Host} {fetched : Fetched} {s s' : Focus} {control : Control}
    {target : ReturnTarget} (stepped : s.step host fetched = .ok control s')
    (returns : control.Returns target) : target.Fits s'.frame.memory := by
  cases control with
  | next | jumped | halted => exact returns.elim
  | call r =>
      obtain ⟨_, _, _, -, -, -, -, covers, -⟩ := step_call stepped
      exact returns ▸ covers
  | create r =>
      obtain ⟨a, rfl⟩ := returns
      trivial

namespace Machine

variable {host : Host} {m m' last : Machine} {control : Control} {f₁ : Frame} {below : List Frame}
  {l₁ : Ledger}

theorem Step.paged (step : Step host m m') (h : ∀ f ∈ m.frames, f.memory.Paged) :
    ∀ f ∈ m'.frames, f.memory.Paged := by
  have replace {f f' : Frame} {below : List Frame} (paged : ∀ g ∈ f :: below, g.memory.Paged)
      (keeps : f.memory.Paged → f'.memory.Paged) : ∀ g ∈ f' :: below, g.memory.Paged := by
    rw [List.forall_mem_cons] at paged ⊢
    exact ⟨keeps paged.1, paged.2⟩
  cases step with
  | ran running stepped quiet => exact replace h (Focus.Keeps.of_step_ok stepped).paged
  | answered running stepped asks set absorbed =>
      have kept := replace h (Focus.Keeps.of_step_ok stepped).paged
      exact replace kept (Frame.absorb_ok absorbed).paged
  | entered running stepped asks set =>
      obtain ⟨entered, -⟩ := (Focus.step_entered stepped asks set).enters
      rw [List.forall_mem_cons]
      refine ⟨?_, replace h (Focus.Keeps.of_step_ok stepped).paged⟩
      rw [entered.fresh]
      exact Memory.paged_empty
  | returned ended completed absorbed =>
      exact replace (List.forall_mem_cons.mp h).2 (Frame.absorb_ok absorbed).paged

/-- A request that failed leaves the world and the checkpoints as they were when its own was opened,
or would have been. -/
theorem Resolved.failed {s : Focus} {fetched : Fetched} {result : CallResult} {l : Ledger}
    (resolved : Resolved host control f₁ l₁ result l)
    (stepped : s.step host fetched = .ok control ⟨f₁, l₁⟩) (failed : result.success = false) :
    l.world = (control.opening host.rules f₁.env l₁).world ∧ l.saved = l₁.saved := by
  cases resolved with
  | answered asks set =>
      have answers := Focus.step_answered stepped asks set
      exact ⟨answers.failed failed, answers.saved.trans (Control.saved_opening ..)⟩
  | @ran _ _ _ child l₂ watch n before after _ asks set reached done =>
      have opens := Focus.step_entered stepped asks set
      have guards := (iterate_keeps (fun _ _ step => step.guards) n
        (guards_root child watch opens.saved)).1 before reached
      obtain ⟨saved, world⟩ := guards.finished done
      exact ⟨world failed, saved.trans (Control.saved_opening ..)⟩

/-- In a run from a frame whose memory is well formed, every request that fails leaves the world as
it was when the checkpoint of the request was opened, or would have been, whatever was done above
it, and the frame goes on with nothing new but the gas left, a zero and the output. Under prices that
cover the stipend the gas that is left is added in full. -/
theorem failed_request_leaves_nothing {root : Frame} {ledger : Ledger} {watch : Watch} {n : Nat}
    (paged : root.memory.Paged) (reached : iterate host n ⟨ledger, [root], watch⟩ = .more m)
    (h : Requested host m last m' control f₁ below l₁) :
    ∃ result f' target, HandsOver host last result f₁ ∧ control.Returns target ∧
      m'.frames = f' :: below ∧
      (result.success = false →
        m'.ledger.world = (control.opening host.rules f₁.env l₁).world ∧
        m'.ledger.saved = l₁.saved ∧
        f₁.ResumesEmpty result target f' ∧
        (host.rules.gas.CoversStipend → root.gas ≤ root.gasLimit →
          f'.gas.toNat = f₁.gas.toNat + result.gasLeft.toNat)) := by
  obtain ⟨result, f', target, hands, returns, absorbed, frames, resolved⟩ := h.resolved
  obtain ⟨f, top, -, stepped⟩ := h.stepped
  refine ⟨result, f', target, hands, returns, frames, fun failed => ?_⟩
  obtain ⟨world, saved⟩ := resolved.failed stepped failed
  have pages : f₁.memory.Paged := by
    have all := (iterate_keeps (m := ⟨ledger, [root], watch⟩)
      (P := fun m => ∀ f ∈ m.frames, f.memory.Paged) (fun _ _ step => step.paged) n
      (List.forall_mem_singleton.mpr paged)).1 m reached
    exact (Focus.Keeps.of_step_ok stepped).paged (all f (top ▸ List.mem_cons_self))
  obtain rfl := Frame.absorb_eq_ok absorbed
  have resumes := Frame.resumesEmpty_resumed failed (Focus.step_fits stepped returns) pages
  refine ⟨world, saved, resumes, fun covers full => ?_⟩
  obtain ⟨k, ended, -⟩ := h.inside
  have start : Budgeted 0 (Machine.mk ledger [root] watch).frames := (budgeted_root full).1
  have budget := (iterate_keeps (fun _ _ step => (step.gas covers).budgeted) n start).1 m reached
  have budget := (iterate_keeps (fun _ _ step => (step.gas covers).budgeted) k budget).1 last ended
  rw [resumes.same]
  exact hands.gas covers budget

/-- A CALL to code that writes to storage and then reverts with a word of output. -/
theorem failed_request_leaves_nothing_revert :
    let host := Host.ofRules (.ofFork .istanbul) fun _ => none
    let env : Environment :=
      ⟨.message .call, 1, 1, 2, 2, 0, ByteArray.empty, 0, Block.genesis, 0, false⟩
    let caller : Frame := { Frame.start env (.span 0 0) ⟨#[0xf1]⟩ 100000 with
      stack := ⟨[50000, 7, 0, 0, 0, 0, 32]⟩ }
    let callee : Account :=
      ⟨0, 0, ⟨#[0x60, 1, 0x60, 0, 0x55, 0x60, 32, 0x60, 0, 0xfd]⟩, 0⟩
    let ledger := (Ledger.ofWorld (World.empty.setAccount 7 (some callee))).checkpoint
    let m : Machine := ⟨ledger, [caller], Watch.start false none⟩
    let r : CallRequest := ⟨.call, 50000, 1, 7, 7, 0, false, ByteArray.empty, 0, 32, false⟩
    caller.memory.Paged ∧ iterate host 0 m = .more m ∧
      ∃ last m' f₁ below l₁, Requested host m last m' (.call r) f₁ below l₁ ∧
        ∃ result f' target, HandsOver host last result f₁ ∧ result.success = false ∧
          m'.frames = f' :: below ∧ m'.ledger.world = l₁.world ∧
          f₁.ResumesEmpty result target f' ∧
          f'.gas.toNat = f₁.gas.toNat + result.gasLeft.toNat := by
  intro host env caller callee ledger m r
  have paged : caller.memory.Paged := Memory.paged_empty
  have asked : control? host m = some (.call r) := by decide +kernel
  have inside : ∀ j < 7, (openFrames? host m (j + 1)).any (m.frames.length < ·) = true := by
    decide +kernel
  have back : openFrames? host m 8 = some m.frames.length := by decide +kernel
  have failure : (ended? host m 7).map CallResult.success = some false := by decide +kernel
  obtain ⟨last, m', f₁, below, l₁, reached, requested⟩ :=
    requested_of_openFrames asked rfl inside back
  refine ⟨paged, rfl, last, m', f₁, below, l₁, requested, ?_⟩
  obtain ⟨result, f', target, hands, -, frames, after⟩ :=
    failed_request_leaves_nothing (n := 0) paged rfl requested
  have failed : result.success = false := by
    rw [hands.ended?_eq reached ?_] at failure
    · exact Option.some.inj failure
    · intro none
      rw [none] at failure
      cases failure
  obtain ⟨world, -, resumes, gas⟩ := after failed
  have covers : host.rules.gas.CoversStipend := GasSchedule.coversStipend_ofFork .istanbul
  exact ⟨result, f', target, hands, failed, frames, world, resumes,
    gas covers (UInt64.le_refl _)⟩

end Machine
end EvmEngine
