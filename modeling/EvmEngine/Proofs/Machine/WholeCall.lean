import EvmEngine.Proofs.Machine.Gas

/-!
A whole call, from its dispatch to the iteration that hands over the result. The frames that wait
are not touched in between, so that what the calling frame has lost in the end is what it paid and
what the callee used, less the stipend.
-/

namespace EvmEngine

open Effects Instruction

namespace Focus

variable {host : Host} {entry : OpcodeEntry} {scheme : CallScheme} {control : Control}
  {s s' : Focus}

/-- A call that does not ask for anything has failed and ended its frame. -/
theorem ended_of_quiet (requests : entry.opcode.isRequest = true)
    (stepped : s.step host (.instruction entry) = .ok control s')
    (quiet : control.isRequest = false) : s'.frame.isRunning = false := by
  obtain ⟨-, ended⟩ | ⟨_, t, _, same, ran, rfl⟩ := step_cases stepped
  · exact ended
  · cases same
    have same : control.isRequest = entry.opcode.isRequest :=
      (entry.nets_dispatch host s _ t ran).1
    rw [quiet, requests] at same
    cases same

theorem asks_of_call {gas : UInt64} {action : Journaled (Prepared × ReturnTarget)}
    (isCall : entry.opcode = .call scheme)
    (stepped : s.step host (.instruction entry) = .ok control s')
    (asks : control.Asks host s'.frame.env gas action) :
    ∃ r : CallRequest, control = .call r ∧ gas = r.gas := by
  cases asks with
  | call r => exact ⟨r, rfl, rfl⟩
  | create r =>
      obtain ⟨-, _, _, _, same, isCreate, -, -⟩ := step_create stepped
      cases same
      cases isCall.symm.trans isCreate

/-- A frame that has called and goes on with the result has lost its charges and what was used, and
gained the stipend. -/
theorem gas_of_answer {r : CallRequest} {f' : Frame} {result : CallResult}
    (covers : host.rules.gas.CoversStipend) (isCall : entry.opcode = .call scheme)
    (stepped : s.step host (.instruction entry) = .ok (.call r) s')
    (accounts : result.Accounts r.gas) (resumes : s'.frame.Resumes result.gasLeft f') :
    f'.gas.toNat + callCharge host.rules entry scheme s.ledger s.frame + result.gasUsed.toNat =
      s.frame.gas.toNat + (stipend host.rules.gas
        (transfers scheme (operandsOf scheme s.frame.stack.words).1)).toNat := by
  obtain ⟨entry', scheme', same, isCall', carries, paid, lent⟩ := gas_step_call covers stepped
  cases same
  cases isCall.symm.trans isCall'
  simp only [CallResult.Accounts] at accounts
  have bound := s.frame.gas.toNat_lt_size
  rw [resumes.gas, Gas.toNat_satAdd_of_lt (by omega), ← carries]
  omega

end Focus

namespace Machine

variable {host : Host} {m m' : Machine}

/-- The result that the next iteration hands over, and the frame that takes it. -/
inductive HandsOver (host : Host) (m : Machine) (result : CallResult) : Frame → Prop
  | answered {f receiver : Frame} {below : List Frame} {control : Control} {gas : UInt64}
      {action : Journaled (Prepared × ReturnTarget)} {target : ReturnTarget} {l l' : Ledger}
      (frames : m.frames = f :: below) (running : f.isRunning = true)
      (stepped : Focus.step ⟨f, m.ledger⟩ host (f.fetch host m.watch.interrupted) =
        .ok control ⟨receiver, l⟩)
      (asks : control.Asks host receiver.env gas action)
      (set : action l = .ok (.finished result, target) l') : HandsOver host m result receiver
  | returned {f parent : Frame} {below : List Frame} {l : Ledger}
      (frames : m.frames = f :: parent :: below) (ended : f.isRunning = false)
      (completed : f.complete host m.ledger = .ok result l) : HandsOver host m result parent

/-- Gas that is handed back never reaches the largest machine integer. -/
theorem HandsOver.gas {result : CallResult} {receiver : Frame}
    (covers : host.rules.gas.CoversStipend) (budget : Budgeted 0 m.frames)
    (h : HandsOver host m result receiver) :
    (receiver.returnGas result.gasLeft).gas.toNat =
      receiver.gas.toNat + result.gasLeft.toNat := by
  refine Gas.toNat_satAdd_of_lt ?_
  cases h with
  | @answered f _ _ _ gas _ _ _ _ frames running stepped asks set =>
      obtain ⟨_, -, -, lent⟩ := Focus.gas_step_asks covers stepped asks
      have answers := Focus.step_answered stepped asks set
      have left := UInt64.le_iff_toNat_le.mp answers.accounts.gasLeft_le
      have bound := f.gas.toNat_lt_size
      dsimp only at lent
      omega
  | @returned f parent below l frames ended completed =>
      have left := UInt64.le_iff_toNat_le.mp (Frame.gasLeft_complete_le completed)
      have bound := receiver.gasLimit.toNat_lt_size
      rw [frames] at budget
      obtain ⟨-, covered, -⟩ := budget
      omega

theorem suspended_replace {f f' c : Frame} {up below rest : List Frame}
    (limit : f'.gasLimit = f.gasLimit) (frames : f :: below = up ++ c :: rest) :
    ∃ up' c', f' :: below = up' ++ c' :: rest ∧ c'.gasLimit = c.gasLimit := by
  cases up with
  | nil =>
      cases frames
      exact ⟨[], f', rfl, limit⟩
  | cons top up =>
      cases frames
      exact ⟨f' :: up, c, rfl, rfl⟩

/-- While more frames are open than those that wait, these stay as they are, and so does the limit
of the frame right above them. -/
theorem Step.suspended {up rest : List Frame} {c : Frame} (step : Step host m m')
    (frames : m.frames = up ++ c :: rest) (above : rest.length < m'.frames.length) :
    ∃ up' c', m'.frames = up' ++ c' :: rest ∧ c'.gasLimit = c.gasLimit := by
  cases step with
  | ran running stepped quiet =>
      exact suspended_replace (Focus.Keeps.of_step_ok stepped).gasLimit frames
  | answered running stepped asks set absorbed =>
      have kept := Focus.Keeps.of_step_ok stepped
      exact suspended_replace ((Frame.absorb_ok absorbed).gasLimit.trans kept.gasLimit) frames
  | entered running stepped asks set =>
      obtain ⟨up', c', frames', limit⟩ :=
        suspended_replace (Focus.Keeps.of_step_ok stepped).gasLimit frames
      exact ⟨_ :: up', c', congrArg (_ :: ·) frames', limit⟩
  | returned ended completed absorbed =>
      cases up with
      | nil =>
          -- The frame that is finished would be the one above those that wait.
          cases frames
          exact absurd above (Nat.lt_irrefl _)
      | cons top up =>
          exact suspended_replace (Frame.absorb_ok absorbed).gasLimit (List.cons.inj frames).2

theorem suspended_of_iterate {up rest : List Frame} {c : Frame} {n : Nat}
    (reached : iterate host n m = .more m')
    (above : ∀ j mid, 0 < j → j ≤ n → iterate host j m = .more mid →
      rest.length < mid.frames.length)
    (frames : m.frames = up ++ c :: rest) :
    ∃ up' c', m'.frames = up' ++ c' :: rest ∧ c'.gasLimit = c.gasLimit := by
  induction n generalizing m up c with
  | zero =>
      cases reached
      exact ⟨up, c, frames, rfl⟩
  | succ n ih =>
      cases advanced : m.advance host with
      | more next =>
          have first (j : Nat) : iterate host (j + 1) m = iterate host j next := by
            simp only [iterate, advanced]
          obtain ⟨up₁, c₁, frames₁, limit₁⟩ := (step_of_more advanced).suspended frames
            (above 1 next (Nat.zero_lt_succ _) (by omega) (first 0))
          rw [first] at reached
          obtain ⟨up₂, c₂, frames₂, limit₂⟩ := ih reached
            (fun j mid positive le mids =>
              above (j + 1) mid (Nat.succ_pos j) (by omega) ((first j).trans mids)) frames₁
          exact ⟨up₂, c₂, frames₂, limit₂.trans limit₁⟩
      | finished result last => simp [iterate, advanced] at reached
      | failed e last => simp [iterate, advanced] at reached

/-- A call of the innermost frame, from its dispatch in one machine to the iteration that leads
from the last machine in which frames are open above to the one in which the frame is innermost
again, and goes on. -/
structure WholeCall (host : Host) (entry : OpcodeEntry) (scheme : CallScheme) (f : Frame)
    (below : List Frame) (m last m' : Machine) : Prop where
  frames : m.frames = f :: below
  running : f.isRunning = true
  fetched : f.fetch host m.watch.interrupted = .instruction entry
  isCall : entry.opcode = .call scheme
  inside : ∃ n, iterate host n m = .more last ∧
    ∀ j mid, 0 < j → j ≤ n → iterate host j m = .more mid → m.frames.length < mid.frames.length
  returns : last.advance host = .more m'
  back : m'.frames.length = m.frames.length
  resumed : ∀ f' rest, m'.frames = f' :: rest → f'.isRunning = true

/-- The step that leaves only the frames that waited has finished the frame right above them. -/
theorem Step.hands_back {up rest : List Frame} {c parent : Frame} (step : Step host m m')
    (frames : m.frames = up ++ c :: parent :: rest)
    (back : m'.frames.length = rest.length + 1) :
    ∃ parent' result l, m'.frames = parent' :: rest ∧ m.frames = c :: parent :: rest ∧
      c.isRunning = false ∧ c.complete host m.ledger = .ok result l ∧
      parent.Resumes result.gasLeft parent' := by
  have count := congrArg List.length frames
  simp only [List.length_append, List.length_cons] at count
  cases step with
  | ran running stepped quiet =>
      simp only [List.length_cons] at count back
      omega
  | answered running stepped asks set absorbed =>
      simp only [List.length_cons] at count back
      omega
  | entered running stepped asks set =>
      simp only [List.length_cons] at count back
      omega
  | @returned _ _ parent' _ _ l _ result ended completed absorbed =>
      simp only [List.length_cons] at count back
      obtain rfl := List.length_eq_zero_iff.mp (show up.length = 0 by omega)
      cases frames
      exact ⟨parent', result, l, rfl, rfl, ended, completed, Frame.absorb_ok absorbed⟩

theorem gas_of_answered {entry : OpcodeEntry} {scheme : CallScheme} {f : Frame}
    {below : List Frame} (covers : host.rules.gas.CoversStipend) (step : Step host m m')
    (frames : m.frames = f :: below) (running : f.isRunning = true)
    (fetched : f.fetch host m.watch.interrupted = .instruction entry)
    (isCall : entry.opcode = .call scheme) (back : m'.frames.length = m.frames.length)
    (resumed : ∀ f' rest, m'.frames = f' :: rest → f'.isRunning = true) :
    ∃ f' receiver result, m'.frames = f' :: below ∧ HandsOver host m result receiver ∧
      f'.gas.toNat + callCharge host.rules entry scheme m.ledger f + result.gasUsed.toNat =
        f.gas.toNat + (stipend host.rules.gas
          (transfers scheme (operandsOf scheme f.stack.words).1)).toNat := by
  cases step with
  | ran _ stepped quiet =>
      cases frames
      rw [fetched] at stepped
      have ended := Focus.ended_of_quiet (by rw [isCall]; rfl) stepped quiet
      rw [resumed _ _ rfl] at ended
      cases ended
  | @answered _ f₁ f' _ l _ _ watch _ _ _ _ result _ _ stepped asks set absorbed =>
      cases frames
      have handed : HandsOver host ⟨l, f :: below, watch⟩ result f₁ :=
        .answered rfl running stepped asks set
      have accounts := (Focus.step_answered stepped asks set).accounts
      have resumes := Frame.absorb_ok absorbed
      rw [fetched] at stepped
      obtain ⟨r, rfl, rfl⟩ := Focus.asks_of_call isCall stepped asks
      have total := Focus.gas_of_answer covers isCall stepped accounts resumes
      exact ⟨f', f₁, result, rfl, handed, total⟩
  | entered _ stepped asks set => simp at back
  | returned ended completed absorbed =>
      cases frames
      rw [running] at ended
      cases ended

/-- A call that enters a frame, and the iteration in which that frame has come to its end. -/
theorem gas_of_returned {entry : OpcodeEntry} {scheme : CallScheme} {f : Frame}
    {below : List Frame} {n : Nat} {first last : Machine}
    (covers : host.rules.gas.CoversStipend) (budget : Budgeted 0 m.frames)
    (step : Step host m first) (frames : m.frames = f :: below)
    (fetched : f.fetch host m.watch.interrupted = .instruction entry)
    (isCall : entry.opcode = .call scheme) (reached : iterate host n first = .more last)
    (above : ∀ j mid, j ≤ n → iterate host j first = .more mid →
      m.frames.length < mid.frames.length)
    (final : Step host last m') (back : m'.frames.length = m.frames.length) :
    ∃ f' receiver result, m'.frames = f' :: below ∧ HandsOver host last result receiver ∧
      f'.gas.toNat + callCharge host.rules entry scheme m.ledger f + result.gasUsed.toNat =
        f.gas.toNat + (stipend host.rules.gas
          (transfers scheme (operandsOf scheme f.stack.words).1)).toNat := by
  -- The callee stays right above the frame that called until the last step finishes it.
  have budgeted := (iterate_keeps (fun _ _ next => (next.gas covers).budgeted) n
    ((step.gas covers).budgeted budget)).1 last reached
  have grown := above 0 first (Nat.zero_le _) rfl
  cases step with
  | ran _ stepped quiet => simp at grown
  | answered _ stepped asks set absorbed => simp at grown
  | returned ended completed absorbed =>
      simp only [List.length_cons] at grown
      omega
  | @entered _ f₁ child _ _ _ _ _ _ _ gas _ _ _ stepped asks set =>
      cases frames
      rw [fetched] at stepped
      obtain ⟨r, rfl, rfl⟩ := Focus.asks_of_call isCall stepped asks
      obtain ⟨entered, -⟩ := (Focus.step_entered stepped asks set).enters
      obtain ⟨up, c, stays, limit⟩ := @suspended_of_iterate host _ last [] (f₁ :: below) child n
        reached (fun j mid _ le mids => above j mid le mids) rfl
      have given : c.gasLimit = r.gas := limit.trans entered.gas.2
      obtain ⟨parent, result, l, popped, rest, ended, completed, resumes⟩ :=
        final.hands_back stays back
      have within : c.gas ≤ c.gasLimit := by
        rw [rest] at budgeted
        exact budgeted.within c (by simp)
      have accounts := Frame.accounts_complete within completed
      rw [given] at accounts
      have total := Focus.gas_of_answer covers isCall stepped accounts resumes
      exact ⟨parent, f₁, result, popped, .returned rest ended completed, total⟩

/-- Over a whole call the frame loses its charges and the gas the callee used, and gains the
stipend; the frames that wait below it stay as they are. -/
theorem WholeCall.gas {entry : OpcodeEntry} {scheme : CallScheme} {f : Frame}
    {below : List Frame} {last : Machine} (covers : host.rules.gas.CoversStipend)
    (budget : Budgeted 0 m.frames) (h : WholeCall host entry scheme f below m last m') :
    ∃ f' receiver result, m'.frames = f' :: below ∧ HandsOver host last result receiver ∧
      f'.gas.toNat + callCharge host.rules entry scheme m.ledger f + result.gasUsed.toNat =
        f.gas.toNat + (stipend host.rules.gas
          (transfers scheme (operandsOf scheme f.stack.words).1)).toNat := by
  obtain ⟨n, reached, above⟩ := h.inside
  cases n with
  | zero =>
      cases reached
      exact gas_of_answered covers (step_of_more h.returns) h.frames h.running h.fetched h.isCall
        h.back h.resumed
  | succ n =>
      cases advanced : m.advance host with
      | more first =>
          have later (j : Nat) : iterate host (j + 1) m = iterate host j first := by
            simp only [iterate, advanced]
          rw [later] at reached
          exact gas_of_returned covers budget (step_of_more advanced) h.frames h.fetched h.isCall
            reached
            (fun j mid le mids => above (j + 1) mid (Nat.succ_pos j) (by omega)
              ((later j).trans mids))
            (step_of_more h.returns) h.back
      | finished result last => simp [iterate, advanced] at reached
      | failed e last => simp [iterate, advanced] at reached

end Machine
end EvmEngine
