import EvmEngine.Proofs.Effects
import EvmEngine.Proofs.Frame.Works

/-!
What a frame becomes when it takes the result of another one. It goes on with the gas that was left,
the output and one word more on its stack; only a success brings anything else. Where the stack has
room for the word, nothing can go wrong.
-/

namespace EvmEngine

open Effects

/-- A result that brings nothing but gas and output. -/
structure CallResult.Bare (result : CallResult) : Prop where
  logs : result.logs = #[]
  refund : result.refund = 0
  destroyed : result.destroyed = []

/-- The word that tells a frame the outcome of what it asked for. -/
def CallResult.flag (result : CallResult) : ReturnTarget → Word
  | .span _ _ => Word.ofBool result.success
  | .account _ =>
      match result.created with
      | some address => if result.success then address.toWord else 0
      | none => 0

theorem CallResult.flag_of_failure {result : CallResult} (failed : result.success = false)
    (target : ReturnTarget) : result.flag target = 0 := by
  cases target with
  | span => simp [flag, failed, Word.ofBool]
  | account =>
      simp only [flag, failed]
      split <;> rfl

/-- A frame that goes on after the result of another: it gets the gas that was left and one word on
its stack, and what it is and whether it runs stay the same. -/
structure Frame.Resumes (f : Frame) (gasLeft : UInt64) (f' : Frame) : Prop where
  env : f'.env = f.env
  target : f'.target = f.target
  gasLimit : f'.gasLimit = f.gasLimit
  halt : f'.halt = f.halt
  gas : f'.gas = Gas.satAdd f.gas gasLeft
  stack : ∃ flag, f'.stack.words = flag :: f.stack.words
  paged : f.memory.Paged → f'.memory.Paged

namespace Frame

variable {f f' : Frame} {result : CallResult} {target : ReturnTarget}

theorem Resumes.isRunning {gasLeft : UInt64} (h : f.Resumes gasLeft f') :
    f'.isRunning = f.isRunning := by
  simp only [Frame.isRunning]
  rw [h.halt]

theorem foldl_recordDestroyed (accounts : List Address) (f : Frame) :
    ∃ destroyed, accounts.foldl recordDestroyed f = { f with destroyed } := by
  induction accounts generalizing f with
  | nil => exact ⟨f.destroyed, rfl⟩
  | cons a accounts ih =>
      obtain ⟨destroyed, same⟩ := ih (f.recordDestroyed a)
      refine ⟨destroyed, same.trans ?_⟩
      simp only [recordDestroyed]
      split <;> rfl

theorem merge_eq (f : Frame) (child : CallResult) :
    ∃ destroyed, f.merge child = { f with
      logs := f.logs ++ child.logs
      refund := Gas.addRefund f.refund child.refund
      destroyed } :=
  foldl_recordDestroyed child.destroyed _

theorem Resumes.merge {f g : Frame} {gasLeft : UInt64} (resumes : f.Resumes gasLeft g)
    (child : CallResult) : f.Resumes gasLeft (g.merge child) := by
  obtain ⟨destroyed, merged⟩ := merge_eq g child
  rw [merged]
  exact ⟨resumes.env, resumes.target, resumes.gasLimit, resumes.halt, resumes.gas,
    resumes.stack, resumes.paged⟩

/-- The frame with the gas that was left and the output, before it is told the outcome. -/
def receive (f : Frame) (result : CallResult) : ReturnTarget → Frame
  | .span offset length =>
      { f.returnGas result.gasLeft with
        memory := f.memory.extendAndWrite offset result.returnData length true
        returnData := result.returnData }
  | .account _ =>
      { f.returnGas result.gasLeft with
        returnData := if result.success then ByteArray.empty else result.returnData }

theorem stack_receive (f : Frame) (result : CallResult) (target : ReturnTarget) :
    (f.receive result target).stack = f.stack := by
  cases target <;> rfl

/-- The frame that goes on where its stack has room. -/
def resumed (f : Frame) (result : CallResult) (target : ReturnTarget) : Frame :=
  let g := { f.receive result target with stack := ⟨result.flag target :: f.stack.words⟩ }
  if result.success then g.merge result else g

/-- Only a success adds to the refund counter. -/
theorem refund_resumed (f : Frame) (result : CallResult) (target : ReturnTarget) :
    (f.resumed result target).refund =
      if result.success then Gas.addRefund f.refund result.refund else f.refund := by
  have received : (f.receive result target).refund = f.refund := by cases target <;> rfl
  simp only [resumed]
  split
  · obtain ⟨destroyed, merged⟩ := merge_eq
      { f.receive result target with stack := ⟨result.flag target :: f.stack.words⟩ } result
    rw [merged, ← received]
  · exact received

theorem memory_resumed (f : Frame) (result : CallResult) (target : ReturnTarget) :
    (f.resumed result target).memory = (f.receive result target).memory := by
  simp only [resumed]
  split
  · obtain ⟨destroyed, merged⟩ := merge_eq
      { f.receive result target with stack := ⟨result.flag target :: f.stack.words⟩ } result
    rw [merged]
  · rfl

theorem stack_resumed (f : Frame) (result : CallResult) (target : ReturnTarget) :
    (f.resumed result target).stack.words = result.flag target :: f.stack.words := by
  simp only [resumed]
  split
  · obtain ⟨destroyed, merged⟩ := merge_eq
      { f.receive result target with stack := ⟨result.flag target :: f.stack.words⟩ } result
    rw [merged]
  · rfl

theorem acknowledge_eq (g : Frame) (result : CallResult) (flag : Word) :
    acknowledge result flag g =
      match g.push flag with
      | .ok f => .ok () (if result.success then f.merge result else f)
      | .error cause => .error cause g := by
  have opened : acknowledge result flag g = (do
      match g.push flag with
      | .ok f => set f
      | .error cause => throw cause
      if result.success then modify (·.merge result) : EStateM Fault Frame Unit) g := rfl
  rw [opened]
  cases g.push flag with
  | error cause => rfl
  | ok f => cases result.success <;> rfl

theorem absorb_eq (f : Frame) (result : CallResult) (target : ReturnTarget) :
    absorb result target f =
      if Stack.capacity ≤ f.stack.size then .error .stackOverflow (f.receive result target)
      else .ok () (f.resumed result target) := by
  have received : absorb result target f =
      acknowledge result (result.flag target) (f.receive result target) := by
    cases target <;> rfl
  rw [received, acknowledge_eq, push, stack_receive, Stack.push]
  by_cases full : Stack.capacity ≤ f.stack.size
  · rw [if_pos full, if_pos full]
    rfl
  · rw [if_neg full, if_neg full]
    rfl

theorem absorb_eq_ok {u : Unit} (h : absorb result target f = .ok u f') :
    f' = f.resumed result target := by
  rw [absorb_eq] at h
  split at h
  · cases h
  · cases h
    rfl

/-- Only a full stack keeps a frame from going on. -/
theorem absorb_eq_error {cause : Fault} (h : absorb result target f = .error cause f') :
    Stack.capacity ≤ f.stack.size := by
  rw [absorb_eq] at h
  split at h
  · next full => exact full
  · cases h

theorem resumes_resumed (f : Frame) (result : CallResult) (target : ReturnTarget) :
    f.Resumes result.gasLeft (f.resumed result target) := by
  have resumes : f.Resumes result.gasLeft
      { f.receive result target with stack := ⟨result.flag target :: f.stack.words⟩ } := by
    cases target with
    | span offset length =>
        refine ⟨rfl, rfl, rfl, rfl, rfl, ⟨_, rfl⟩, fun paged => ?_⟩
        exact (paged.extend offset length).write offset _
    | account address => exact ⟨rfl, rfl, rfl, rfl, rfl, ⟨_, rfl⟩, id⟩
  simp only [resumed]
  split
  · exact resumes.merge result
  · exact resumes

theorem absorb_ok {u : Unit} (h : absorb result target f = .ok u f') :
    f.Resumes result.gasLeft f' :=
  absorb_eq_ok h ▸ resumes_resumed f result target

end Frame
end EvmEngine
