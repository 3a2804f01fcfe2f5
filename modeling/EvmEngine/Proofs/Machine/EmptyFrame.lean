import EvmEngine.Machine
import EvmEngine.Proofs.Calls.Code

/-!
Calls to accounts without code. Such a call is answered when it is set up. Were a frame entered for
it like for any other call, that frame would stop at the end of its code before it has begun and be
finished in the next iteration: with the same result, the same ledger and nothing seen by the watch.
-/

namespace EvmEngine

open Effects Journaled

namespace CallRequest

/-- Sets up a call without regard to whether there is code to run. -/
def prepareFrame (r : CallRequest) (host : Host) (tx : TxContext) (depth : UInt64) :
    Journaled Prepared := do
  if r.isRefused host.rules (← get) depth then return .finished (.refusal r.gas)
  let code ← withinCheckpoint do
    if r.transfersValue then transfer r.caller r.address r.value
    return (← get).code r.codeAddress
  match host.rules.precompileAt? r.codeAddress with
  | some p => return .finished (← r.finishPrecompile p)
  | none => return .enter (Frame.start (r.environment tx depth) r.target code r.gas)

end CallRequest

/-- Answers for a frame that has no code to run, and closes its checkpoint. -/
def Frame.answerEmpty (f : Frame) : Journaled CallResult := do
  onLedger Ledger.commit
  return .plainSuccess f.gas 0 ByteArray.empty

/-- Answers at once where the frame to be entered has no code to run. -/
def Prepared.shortcut : Prepared → Journaled Prepared
  | .finished result => return .finished result
  | .enter child => do
      if child.code.isEmpty then return .finished (← child.answerEmpty)
      return .enter child

theorem Prepared.shortcut_of_noCode {child : Frame} (noCode : child.code.isEmpty = true) :
    (Prepared.enter child).shortcut = do return .finished (← child.answerEmpty) :=
  if_pos noCode

/-- Setting up a call is setting it up like any other and then taking the shortcut. -/
theorem CallRequest.prepare_eq (r : CallRequest) (host : Host) (tx : TxContext) (depth : UInt64) :
    r.prepare host tx depth = r.prepareFrame host tx depth >>= Prepared.shortcut := by
  simp only [prepare, prepareFrame, bind_assoc]
  refine bind_congr fun l => ?_
  split
  · rfl
  · simp only [bind_assoc]
    refine bind_congr fun code => ?_
    cases host.rules.precompileAt? r.codeAddress with
    | some p => simp only [bind_assoc, pure_bind, Prepared.shortcut]
    | none =>
        simp only [pure_bind, Prepared.shortcut, Frame.answerEmpty, bind_assoc]
        rfl

/-- A call to an account without code enters a frame that has none, unless it is refused or
answered by a precompile. -/
theorem CallRequest.prepareFrame_blank (r : CallRequest) (host : Host) (tx : TxContext)
    (depth : UInt64) {l : Ledger} (noCode : (l.code r.codeAddress).isEmpty = true) :
    Ensures (r.prepareFrame host tx depth) l
      (fun prepared _ =>
        ((r.isRefused host.rules l depth = true ∨ host.rules.precompileAt? r.codeAddress ≠ none) ∧
          ∃ result, prepared = .finished result) ∨
        ∃ code, code.isEmpty = true ∧
          prepared = .enter (Frame.start (r.environment tx depth) r.target code r.gas))
      (fun _ _ => True) := by
  have reads : Edits (do
      if r.transfersValue then transfer r.caller r.address r.value
      return (← get).code r.codeAddress) l.checkpoint
      (fun code _ => code = l.code r.codeAddress) (fun _ => True) := by
    split
    · refine (transfer_spares r.caller r.address r.value l.checkpoint).bind
        fun _ l₁ ⟨saved, spared⟩ => ?_
      exact .after (a := l₁) (t := l₁) rfl (.of_ok rfl ⟨saved, (spared r.codeAddress).code⟩)
    · exact .after (a := l.checkpoint) (t := l.checkpoint) rfl (.of_ok rfl ⟨rfl, rfl⟩)
  refine .after (a := l) (t := l) rfl ?_
  split
  · rename_i refused
    exact .of_ok rfl (.inl ⟨.inl refused, _, rfl⟩)
  · refine ((withinCheckpoint_ensures reads).mono (fun _ _ read => read) fun _ _ _ => trivial).bind
      fun code l₁ ⟨_, read⟩ => ?_
    cases special : host.rules.precompileAt? r.codeAddress with
    | some p =>
        refine (Ensures.anyway (r.finishPrecompile p) l₁).bind fun result l₂ _ => ?_
        exact .of_ok rfl (.inl ⟨.inr (by simp), _, rfl⟩)
    | none => exact .of_ok rfl (.inr ⟨code, read ▸ noCode, rfl⟩)

/-- A call to an account without code is answered where it is set up. -/
theorem CallRequest.prepare_blank (r : CallRequest) (host : Host) (tx : TxContext)
    (depth : UInt64) {l : Ledger} (noCode : (l.code r.codeAddress).isEmpty = true) :
    Ensures (r.prepare host tx depth) l (fun prepared _ => ∃ result, prepared = .finished result)
      (fun _ _ => True) := by
  rw [r.prepare_eq]
  refine (r.prepareFrame_blank host tx depth noCode).bind fun prepared l₁ set => ?_
  obtain ⟨-, result, rfl⟩ | ⟨code, noCode, rfl⟩ := set
  · exact .of_ok rfl ⟨result, rfl⟩
  · rw [Prepared.shortcut_of_noCode noCode]
    exact (Ensures.anyway _ l₁).bind fun result _ _ => .of_ok rfl ⟨result, rfl⟩

namespace Frame

variable {env : Environment} {offset length : Nat} {code : ByteArray}

theorem fetch_blank (host : Host) (target : ReturnTarget) (gas : UInt64)
    (noCode : code.isEmpty = true) : (start env target code gas).fetch host false = .endOfCode := by
  have size : code.size = 0 := by simpa [ByteArray.isEmpty] using noCode
  have none : (start env target code gas).currentByte? = none := by
    refine getElem?_neg code 0 ?_
    rw [size]
    exact Nat.lt_irrefl 0
  simp only [fetch, Bool.false_eq_true, if_false, none]

/-- A frame that has stopped before it has begun is finished with what the shortcut answers. -/
theorem complete_blank (env : Environment) (offset length : Nat) (code : ByteArray) (host : Host)
    (gas : UInt64) :
    ((start env (.span offset length) code gas).halted .stopped).complete host =
      (start env (.span offset length) code gas).answerEmpty := by
  have result : ((start env (.span offset length) code gas).halted .stopped).result =
      .plainSuccess gas 0 ByteArray.empty := by
    have used : gas - gas = 0 := UInt64.sub_self gas
    have left : (if gas < 0 then 0 else gas - 0) = gas := by
      rw [if_neg UInt64.not_lt_zero, UInt64.sub_zero]
    simp only [CallResult.plainSuccess, left]
    rw [← used]
    rfl
  rw [complete_eq]
  show (do
    let result ← pure ((start env (.span offset length) code gas).halted .stopped).result
    onLedger (if result.success then Ledger.commit else Ledger.rollback)
    return result) = _
  rw [result]
  rfl

end Frame

/-- Goes on with a machine, where the run has not ended. -/
def Progress.andThen (p : Progress) (next : Machine → Progress) : Progress :=
  match p with
  | .more m => next m
  | .finished result m => .finished result m
  | .failed e m => .failed e m

namespace Machine

/-- Iterates as long as more than so many frames are open, at most `fuel` times. -/
def iterateAbove (host : Host) (waiting : Nat) : Nat → Machine → Progress
  | 0, m => .more m
  | fuel + 1, m =>
      if m.frames.length ≤ waiting then .more m
      else (m.advance host).andThen (iterateAbove host waiting fuel)

/-- Goes on after a request for a call by way of a frame, whether or not that has code to run, until
the frame that asked is the innermost one again. -/
def followFrame (m : Machine) (host : Host) (r : CallRequest) (frame : Frame) (below : List Frame)
    (fuel : Nat) : Progress :=
  (m.enter (do return (← r.prepareFrame host frame.env.tx (frame.env.depth + 1), r.target)) frame
    below).andThen (iterateAbove host (below.length + 1) fuel)

variable {host : Host} {l l' : Ledger} {frame : Frame} {frames below : List Frame}
  {watch : Watch}

theorem iterateAbove_of_le {m : Machine} {waiting : Nat} (few : m.frames.length ≤ waiting)
    (fuel : Nat) : iterateAbove host waiting fuel m = .more m := by
  cases fuel with
  | zero => rfl
  | succ fuel => exact if_pos few

theorem iterateAbove_of_lt {m : Machine} {waiting : Nat} (many : waiting < m.frames.length)
    (fuel : Nat) :
    iterateAbove host waiting (fuel + 1) m =
      (m.advance host).andThen (iterateAbove host waiting fuel) :=
  if_neg (Nat.not_le.mpr many)

/-- Once a result is delivered, the frame that takes it is the innermost one. -/
theorem andThen_deliver (frames : List Frame) (result : CallResult) (target : ReturnTarget) (fuel : Nat) :
    (deliver ⟨l, frames, watch⟩ result target frame below).andThen
        (iterateAbove host (below.length + 1) fuel) =
      deliver ⟨l, frames, watch⟩ result target frame below := by
  simp only [deliver]
  cases Frame.absorb result target frame with
  | ok _ f => exact iterateAbove_of_le (m := ⟨l, f :: below, watch⟩) (Nat.le_refl _) fuel
  | error cause f => rfl

/-- A frame without code stops before its first instruction. -/
theorem advance_blank {env : Environment} {target : ReturnTarget} {code : ByteArray} {gas : UInt64}
    (noCode : code.isEmpty = true) (clear : watch.interrupted = false) :
    advance ⟨l, Frame.start env target code gas :: below, watch⟩ host =
      .more ⟨l, (Frame.start env target code gas).halted .stopped :: below, watch⟩ := by
  have running : (Frame.start env target code gas).isRunning = true := rfl
  simp only [advance, running, if_true, clear, Frame.fetch_blank host target gas noCode]
  rfl

/-- The two iterations of a frame without code: it stops, and what it is finished with is handed to
the frame below. -/
theorem iterateAbove_blank (frames : List Frame) {env : Environment} {offset length : Nat}
    {code : ByteArray} {gas : UInt64} (noCode : code.isEmpty = true) (clear : watch.interrupted = false) (fuel : Nat) :
    let child := Frame.start env (.span offset length) code gas
    iterateAbove host (below.length + 1) (fuel + 2) ⟨l, child :: frame :: below, watch⟩ =
      enter ⟨l, frames, watch⟩ (do return (.finished (← child.answerEmpty), child.target)) frame
        below := by
  intro child
  have ended : (child.halted .stopped).isRunning = false := child.isRunning_halted (by simp)
  have many : below.length + 1 < (child :: frame :: below).length := Nat.lt_succ_self _
  rw [iterateAbove_of_lt many, advance_blank noCode clear]
  show iterateAbove host _ (fuel + 1) ⟨l, child.halted .stopped :: frame :: below, watch⟩ = _
  rw [iterateAbove_of_lt many]
  simp only [advance, ended, Bool.false_eq_true, if_false]
  rw [Frame.complete_blank env offset length code host gas]
  cases answered : child.answerEmpty l with
  | ok result l' =>
      have set : (do return (Prepared.finished (← child.answerEmpty), child.target)) l =
          .ok (.finished result, child.target) l' := bind_of_ok answered
      simp only [enter, set]
      exact andThen_deliver frames result child.target fuel
  | error e l' =>
      have set : (do return (Prepared.finished (← child.answerEmpty), child.target)) l =
          .error e l' := bind_of_error answered
      simp only [enter, set]
      rfl

theorem enter_congr {action action' : Journaled (Prepared × ReturnTarget)}
    (same : action l = action' l') :
    enter ⟨l, frames, watch⟩ action frame below =
      enter ⟨l', frames, watch⟩ action' frame below := by
  simp only [enter, same]

/-- A call to an account without code is answered at once as it is answered by way of a frame. -/
theorem followFrame_eq {m : Machine} {r : CallRequest} {fuel : Nat}
    (noCode : (m.ledger.code r.codeAddress).isEmpty = true) (clear : m.watch.interrupted = false)
    (enough : 2 ≤ fuel) :
    m.followFrame host r frame below fuel = m.follow host (.call r) frame below := by
  obtain ⟨l, frames, watch⟩ := m
  obtain ⟨fuel, rfl⟩ := Nat.exists_eq_add_of_le' enough
  have blank := r.prepareFrame_blank host frame.env.tx (frame.env.depth + 1) noCode
  simp only [followFrame, follow, r.prepare_eq]
  generalize r.prepareFrame host frame.env.tx (frame.env.depth + 1) = prepares at blank ⊢
  cases set : prepares l with
  | error e l' =>
      have long : (do return (← prepares, r.target)) l = .error e l' := bind_of_error set
      have short : (do return (← prepares >>= Prepared.shortcut, r.target)) l = .error e l' :=
        bind_of_error (bind_of_error set)
      simp only [enter, long, short]
      rfl
  | ok prepared l' =>
      have long : (do return (← prepares, r.target)) l =
          (pure (prepared, r.target) : Journaled (Prepared × ReturnTarget)) l' := bind_of_ok set
      have short : (do return (← prepares >>= Prepared.shortcut, r.target)) l =
          (do return (← prepared.shortcut, r.target)) l' := by
        rw [bind_assoc]
        exact bind_of_ok set
      rw [enter_congr long, enter_congr short]
      obtain ⟨-, result, rfl⟩ | ⟨code, noCode, rfl⟩ := blank.ok set
      · exact andThen_deliver frames result r.target (fuel + 2)
      · refine (iterateAbove_blank frames noCode clear fuel).trans (enter_congr ?_)
        rw [Prepared.shortcut_of_noCode noCode, bind_assoc]
        rfl

end Machine
end EvmEngine
