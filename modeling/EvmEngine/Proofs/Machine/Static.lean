import EvmEngine.Proofs.Instruction.Ledger
import EvmEngine.Proofs.Machine.Requests

/-!
Calls that may not change the state. The ban is checked where an instruction would write, log, create,
destroy or move value to another account, and every frame hands it on to those it asks for; a
CALLCODE that carries value passes, since it only pays the account its value comes from. So the world
under such a call stands still until its result is handed back, and the result brings nothing but gas
and output.
-/

namespace EvmEngine

open Effects

/-- A frame that may not change the state, has noted nothing and creates no account. -/
structure Frame.Untouched (f : Frame) : Prop where
  static : f.env.isStatic = true
  logs : f.logs = #[]
  refund : f.refund = 0
  destroyed : f.destroyed = []
  target : ∃ offset length, f.target = .span offset length

namespace Frame

variable {f f' : Frame} {result : CallResult}

theorem merge_bare (f : Frame) (bare : result.Bare) :
    f.merge result = { f with refund := Gas.addRefund f.refund 0 } := by
  simp only [merge, addRefund, bare.logs, bare.refund, bare.destroyed, List.foldl_nil,
    Array.append_empty]

theorem Untouched.resumed (h : f.Untouched) (bare : result.Bare) (target : ReturnTarget) :
    (f.resumed result target).Untouched := by
  have received : ({ f.receive result target with
      stack := ⟨result.flag target :: f.stack.words⟩ } : Frame).Untouched := by
    cases target <;> exact ⟨h.static, h.logs, h.refund, h.destroyed, h.target⟩
  simp only [Frame.resumed]
  split
  · rw [merge_bare _ bare]
    refine ⟨received.static, received.logs, ?_, received.destroyed, received.target⟩
    show Gas.addRefund _ 0 = 0
    rw [received.refund]
    decide
  · exact received

theorem Untouched.bare_result (h : f.Untouched) : f.result.Bare := by
  simp only [Frame.result]
  split
  · exact ⟨h.logs, h.refund, h.destroyed⟩
  · exact ⟨rfl, rfl, rfl⟩
  · exact ⟨rfl, rfl, rfl⟩
  · exact ⟨rfl, rfl, rfl⟩

/-- A frame that creates no account only closes its checkpoint. -/
theorem complete_of_span {host : Host} {l l' : Ledger} {offset length : Nat} {w : World}
    {rest : List World} (target : f.target = .span offset length) (inside : l.saved = w :: rest)
    (h : f.complete host l = .ok result l') :
    result = f.result ∧ l'.saved = rest ∧ l'.world = if f.result.success then l.world else w := by
  rw [complete_eq] at h
  obtain ⟨answer, _, settles, h⟩ := bind_eq_ok.mp h
  simp only [settled, target] at settles
  obtain ⟨rfl, rfl⟩ := pure_eq_ok.mp settles
  obtain ⟨_, _, closes, h⟩ := bind_eq_ok.mp h
  obtain ⟨rfl, rfl⟩ := pure_eq_ok.mp h
  obtain ⟨_, closed, saved, world⟩ := close_ok f.result inside
  cases closes.symm.trans closed
  exact ⟨rfl, saved, world⟩

end Frame

/-- An account that can pay itself is left as it was. -/
theorem CallRequest.Moves.nothing {r : CallRequest} {w w' : World} (h : r.Moves w w')
    (itself : r.transfersValue = true → r.caller = r.address ∧ r.value ≠ 0) : w' = w := by
  simp only [Moves] at h
  split at h
  · next carries =>
      obtain ⟨same, positive⟩ := itself carries
      rw [same] at h
      exact h.to_itself positive
  · exact h

/-- What is set up with the world as it was: an answer that brings nothing, or a frame that is not
to change the state. -/
def Prepared.Harmless (l l' : Ledger) : Prepared → Prop
  | .finished result => l'.saved = l.saved ∧ result.Bare
  | .enter child => l'.saved = l.world :: l.saved ∧ child.Untouched

namespace Focus

variable {host : Host} {fetched : Fetched} {s s' : Focus} {control : Control} {gas : UInt64}
  {action : Journaled (Prepared × ReturnTarget)}

/-- A call that may not change the state moves value, if at all, from an account to itself. -/
theorem step_call_static {r : CallRequest} (stepped : s.step host fetched = .ok (.call r) s')
    (static : r.isStatic = true) :
    r.transfersValue = true → r.caller = r.address ∧ r.value ≠ 0 := by
  obtain ⟨entry, scheme, sent, -, -, pays, rfl, -, mutable⟩ := step_call stepped
  intro carries
  cases scheme with
  | call =>
      have frozen : s'.frame.env.isStatic = true := by
        simpa [Instruction.callRequest] using static
      rw [pays.env, mutable rfl carries] at frozen
      cases frozen
  | callCode =>
      refine ⟨rfl, ?_⟩
      simpa [Instruction.callRequest, Instruction.transfers, Instruction.hasValueOperand,
        Instruction.callParties] using carries
  | delegateCall | staticCall =>
      simp [Instruction.callRequest, Instruction.transfers, Instruction.hasValueOperand] at carries

theorem step_harmless {r : CallRequest} (stepped : s.step host fetched = .ok (.call r) s')
    (asks : Control.Asks host s'.frame.env (.call r) gas action) (static : r.isStatic = true) :
    Ensures action s'.ledger
      (fun answer l => l.world = s'.ledger.world ∧ answer.1.Harmless s'.ledger l)
      (fun _ _ => True) := by
  have itself := step_call_static stepped static
  cases asks
  refine (CallRequest.prepare_ensures.mono (fun _ _ follows => follows) fun _ _ _ => trivial).bind
    fun prepared l follows => .of_ok rfl ?_
  cases prepared with
  | finished result =>
      refine ⟨?_, follows.saved, follows.bare⟩
      cases success : result.success with
      | true => exact (follows.succeeded success).nothing itself
      | false => exact follows.failed success
  | enter child =>
      obtain ⟨-, code, rfl⟩ := follows.enters
      exact ⟨follows.moved.nothing itself, follows.saved, static, rfl, rfl, rfl, _, _, rfl⟩

/-- What a frame that may not change the state asks for is a call that may not either. -/
theorem step_asks_static (stepped : s.step host fetched = .ok control s')
    (asks : control.Asks host s'.frame.env gas action) (static : s.frame.env.isStatic = true) :
    ∃ r : CallRequest, control = .call r ∧ r.isStatic = true := by
  cases asks with
  | call r =>
      obtain ⟨_, _, _, -, -, pays, rfl, -⟩ := step_call stepped
      refine ⟨_, rfl, ?_⟩
      simp [Instruction.callRequest, pays.env, static]
  | create r =>
      obtain ⟨mutable, -⟩ := step_create stepped
      rw [static] at mutable
      cases mutable

theorem step_untouched (untouched : s.frame.Untouched)
    (stepped : s.step host fetched = .ok control s') :
    s'.frame.Untouched ∧ s'.ledger = s.ledger := by
  have kept := Keeps.of_step_ok stepped
  have leaves := step_leaves untouched.static stepped
  refine ⟨⟨?_, ?_, ?_, ?_, ?_⟩, leaves.ledger⟩
  · exact kept.env ▸ untouched.static
  · exact leaves.logs.trans untouched.logs
  · exact leaves.refund.trans untouched.refund
  · exact leaves.destroyed.trans untouched.destroyed
  · exact kept.target ▸ untouched.target

end Focus

namespace Machine

variable {host : Host} {m m' : Machine} {w : World} {base : List World}

/-- Nothing has changed since the outermost frame was entered, above the checkpoints given, and
nothing is noted to be changed later. -/
structure Frozen (w : World) (base : List World) (frames : List Frame) (l : Ledger) : Prop where
  untouched : ∀ f ∈ frames, f.Untouched
  world : l.world = w
  saved : l.saved = List.replicate frames.length w ++ base

namespace Frozen

variable {f f' : Frame} {below : List Frame} {l l' : Ledger}

theorem top (h : Frozen w base (f :: below) l) : f.Untouched :=
  h.untouched f List.mem_cons_self

theorem replace (h : Frozen w base (f :: below) l) (untouched : f'.Untouched)
    (world : l'.world = l.world) (saved : l'.saved = l.saved) :
    Frozen w base (f' :: below) l' where
  untouched g member := by
    obtain rfl | member := List.mem_cons.mp member
    · exact untouched
    · exact h.untouched g (List.mem_cons_of_mem _ member)
  world := world.trans h.world
  saved := saved.trans h.saved

theorem push (h : Frozen w base below l) (untouched : f.Untouched) (world : l'.world = l.world)
    (saved : l'.saved = l.world :: l.saved) : Frozen w base (f :: below) l' where
  untouched g member := by
    obtain rfl | member := List.mem_cons.mp member
    · exact untouched
    · exact h.untouched g member
  world := world.trans h.world
  saved := by rw [saved, h.world, h.saved, List.length_cons, List.replicate_succ, List.cons_append]

/-- A frame that is finished leaves everything as it was, whatever its result. -/
theorem completed {result : CallResult} (h : Frozen w base (f :: below) l)
    (done : f.complete host l = .ok result l') : result.Bare ∧ Frozen w base below l' := by
  obtain ⟨offset, length, target⟩ := h.top.target
  have inside : l.saved = w :: (List.replicate below.length w ++ base) := h.saved
  obtain ⟨rfl, saved, world⟩ := Frame.complete_of_span target inside done
  refine ⟨h.top.bare_result, fun g member => h.untouched g (List.mem_cons_of_mem _ member), ?_, saved⟩
  rw [world, h.world, ite_self]

end Frozen

theorem Step.frozen (step : Step host m m') (h : Frozen w base m.frames m.ledger) :
    Frozen w base m'.frames m'.ledger := by
  cases step with
  | ran running stepped quiet =>
      obtain ⟨untouched, same⟩ := Focus.step_untouched h.top stepped
      exact h.replace untouched (congrArg Ledger.world same) (congrArg Ledger.saved same)
  | @answered f f₁ f' _ l l₁ _ _ _ _ _ _ _ target running stepped asks set absorbed =>
      obtain ⟨untouched, same⟩ := Focus.step_untouched h.top stepped
      obtain rfl : l₁ = l := same
      obtain ⟨r, rfl, static⟩ := Focus.step_asks_static stepped asks h.top.static
      obtain ⟨world, saved, bare⟩ := (Focus.step_harmless stepped asks static).ok set
      obtain rfl := Frame.absorb_eq_ok absorbed
      exact h.replace (untouched.resumed bare target) world saved
  | @entered f f₁ child below l l₁ l' _ _ _ _ _ _ running stepped asks set =>
      obtain ⟨untouched, same⟩ := Focus.step_untouched h.top stepped
      obtain rfl : l₁ = l := same
      obtain ⟨r, rfl, static⟩ := Focus.step_asks_static stepped asks h.top.static
      obtain ⟨world, saved, entered⟩ := (Focus.step_harmless stepped asks static).ok set
      exact (h.replace untouched rfl rfl).push entered world saved
  | returned ended completed absorbed =>
      obtain ⟨bare, rest⟩ := h.completed completed
      obtain rfl := Frame.absorb_eq_ok absorbed
      exact rest.replace (rest.top.resumed bare _) rfl rfl

/-- When the result of a call that may not change the state is handed back, the world is what it was
just before the call was set up, and the result brings no logs, no refund and no account to delete:
whatever the callee and the frames below it run, and however each of them ends. -/
theorem static_call_isolated {last : Machine} {r : CallRequest} {f₁ : Frame} {below : List Frame}
    {l₁ : Ledger} (static : r.isStatic = true)
    (h : Requested host m last m' (.call r) f₁ below l₁) :
    ∃ result f', HandsOver host last result f₁ ∧
      Frame.absorb result r.target f₁ = .ok () f' ∧ m'.frames = f' :: below ∧
      m'.ledger.world = l₁.world ∧
      result.logs = #[] ∧ result.refund = 0 ∧ result.destroyed = [] := by
  obtain ⟨result, f', target, hands, rfl, absorbed, frames, resolved⟩ := h.resolved
  obtain ⟨f, -, -, stepped⟩ := h.stepped
  refine ⟨result, f', hands, absorbed, frames, ?_⟩
  generalize m'.ledger = l at resolved
  cases resolved with
  | answered asks set =>
      obtain ⟨world, -, bare⟩ := (Focus.step_harmless stepped asks static).ok set
      exact ⟨world, bare.logs, bare.refund, bare.destroyed⟩
  | @ran _ _ _ child l₂ watch n before after _ asks set reached done =>
      obtain ⟨world, saved, entered⟩ := (Focus.step_harmless stepped asks static).ok set
      have start : Frozen l₁.world l₁.saved [child] l₂ := by
        refine ⟨fun g member => ?_, world, saved⟩
        obtain rfl := List.mem_singleton.mp member
        exact entered
      have frozen := (iterate_keeps (m := ⟨l₂, [child], watch⟩)
        (P := fun m => Frozen l₁.world l₁.saved m.frames m.ledger)
        (fun _ _ step => step.frozen) n start).1 before reached
      obtain ⟨c, l, watch', rfl, -, completed⟩ := last_of_finished done
      obtain ⟨bare, rest⟩ := frozen.completed completed
      exact ⟨rest.world, bare.logs, bare.refund, bare.destroyed⟩

/-- A STATICCALL to code that writes to storage, which faults there. -/
theorem static_call_isolated_sstore :
    let host := Host.ofRules (.ofFork .istanbul) fun _ => none
    let env : Environment :=
      ⟨.message .call, 1, 1, 2, 2, 0, ByteArray.empty, 0, Block.genesis, 0, false⟩
    let caller : Frame :=
      { Frame.start env (.span 0 0) ⟨#[0xfa]⟩ 100000 with stack := ⟨[50000, 7, 0, 0, 0, 0]⟩ }
    let callee : Account := ⟨0, 0, ⟨#[0x60, 1, 0x60, 0, 0x55]⟩, 0⟩
    let ledger := (Ledger.ofWorld (World.empty.setAccount 7 (some callee))).checkpoint
    let m : Machine := ⟨ledger, [caller], Watch.start false none⟩
    let r : CallRequest :=
      ⟨.staticCall, 50000, 1, 7, 7, 0, false, ByteArray.empty, 0, 0, true⟩
    r.isStatic = true ∧ ∃ last m' f₁ below l₁, Requested host m last m' (.call r) f₁ below l₁ ∧
      ∃ result f', HandsOver host last result f₁ ∧
        Frame.absorb result r.target f₁ = .ok () f' ∧ m'.frames = f' :: below ∧
        m'.ledger.world = l₁.world ∧
        result.logs = #[] ∧ result.refund = 0 ∧ result.destroyed = [] := by
  intro host env caller callee ledger m r
  have asked : control? host m = some (.call r) := by decide +kernel
  have inside : ∀ j < 4, (openFrames? host m (j + 1)).any (m.frames.length < ·) = true := by
    decide +kernel
  have back : openFrames? host m 5 = some m.frames.length := by decide +kernel
  obtain ⟨last, m', f₁, below, l₁, -, requested⟩ := requested_of_openFrames asked rfl inside back
  exact ⟨rfl, last, m', f₁, below, l₁, requested, static_call_isolated rfl requested⟩

end Machine
end EvmEngine
