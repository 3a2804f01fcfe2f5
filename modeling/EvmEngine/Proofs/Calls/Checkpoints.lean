import EvmEngine.Proofs.Calls.Gas
import EvmEngine.Proofs.Frame.Absorb
import EvmEngine.Proofs.Ledger.Writes

/-!
Checkpoints around frames. What is done inside a checkpoint writes to the ledger and leaves the open
checkpoints as they are; setting a frame up opens exactly one, and a request that gets its answer at
once, a frame that is finished and a failure close the one that was opened for them. A request can
only fail over a payment, and a frame that is finished only over an account that is gone.
-/

namespace EvmEngine

open Effects

namespace Journaled

/-- What an action inside a checkpoint leads to: it leaves the open checkpoints, and what they go
back to, as they are. -/
abbrev Edits {α : Type} (x : Journaled α) (l : Ledger) (post : α → World → Prop)
    (fails : EngineError → Prop) : Prop :=
  Ensures x l (fun a l' => l'.saved = l.saved ∧ post a l'.world)
    (fun e l' => l'.saved = l.saved ∧ fails e)

section
variable {α : Type} {x : Journaled α} {l : Ledger} {post : α → World → Prop}
  {fails : EngineError → Prop}

/-- A payment that is covered can only fail over the balance of the account that is paid. -/
theorem transfer_edits {source destination : Address} {value : Word}
    (covered : value ≤ l.balance source) :
    Edits (transfer source destination value) l
      (fun _ w => World.Pays source destination value l.world w) (·.Overflows l.world) := by
  obtain ⟨l₁, debited⟩ : ∃ l₁, l.debit source value = .ok l₁ :=
    ⟨_, Ledger.debit_eq_ok.mpr ⟨covered, rfl⟩⟩
  have saved := Ledger.saved_debit debited
  have taken : onLedger (·.debit source value) l = .ok () l₁ := by simp only [onLedger, debited]
  refine .after taken ?_
  cases credited : l₁.credit destination value with
  | ok l₂ =>
      have given : onLedger (·.credit destination value) l₁ = .ok () l₂ := by
        simp only [onLedger, credited]
      refine .of_ok given ⟨(Ledger.saved_credit credited).trans saved, ?_⟩
      exact ⟨l, l₁, l₂, debited, credited, rfl, rfl⟩
  | error cause =>
      have refused : onLedger (·.credit destination value) l₁ = .error (.state cause) l₁ := by
        simp only [onLedger, credited]
      obtain ⟨rfl, large⟩ := Ledger.credit_after_debit debited credited
      exact .of_error refused ⟨saved, ⟨_, rfl⟩, large⟩

theorem discard_of_saved {w : World} {rest : List World} (h : l.saved = w :: rest) :
    (discard l).world = w ∧ (discard l).saved = rest := by
  obtain ⟨l', done, world, saved, -⟩ := Ledger.rollback_of_saved h
  simp only [discard, done]
  exact ⟨world, saved⟩

/-- An action that keeps the checkpoints leaves its own one open, unless it fails. -/
theorem orDiscard_ensures (edits : Edits x l post fails) {w : World} {rest : List World}
    (inside : l.saved = w :: rest) :
    Ensures (orDiscard x) l (fun a l' => l'.saved = w :: rest ∧ post a l'.world)
      (fun e l' => (l'.world = w ∧ l'.saved = rest) ∧ fails e) := by
  cases run : x l with
  | ok a l' =>
      obtain ⟨same, done⟩ := edits.ok run
      exact .of_ok (by simp only [orDiscard, run]) ⟨same.trans inside, done⟩
  | error e l' =>
      obtain ⟨same, failed⟩ := edits.error run
      exact .of_error (by simp only [orDiscard, run])
        ⟨discard_of_saved (same.trans inside), failed⟩

theorem withinCheckpoint_ensures (edits : Edits x l.checkpoint post fails) :
    Ensures (withinCheckpoint x) l (fun a l' => l'.saved = l.world :: l.saved ∧ post a l'.world)
      (fun e l' => (l'.world = l.world ∧ l'.saved = l.saved) ∧ fails e) :=
  let within := orDiscard_ensures edits l.saved_checkpoint
  ⟨within.ok, within.error⟩

theorem commit_ok {w : World} {rest : List World} (h : l.saved = w :: rest) :
    ∃ l', onLedger Ledger.commit l = .ok () l' ∧ l'.world = l.world ∧ l'.saved = rest := by
  obtain ⟨l', done, world, saved, -⟩ := Ledger.commit_of_saved h
  exact ⟨l', by simp only [onLedger, done], world, saved⟩

theorem rollback_ok {w : World} {rest : List World} (h : l.saved = w :: rest) :
    ∃ l', onLedger Ledger.rollback l = .ok () l' ∧ l'.world = w ∧ l'.saved = rest := by
  obtain ⟨l', done, world, saved, -⟩ := Ledger.rollback_of_saved h
  exact ⟨l', by simp only [onLedger, done], world, saved⟩

end
end Journaled

open Journaled

/-- A request that is answered at once, with the checkpoints as before: a success moves what it is
asked to move, and a failure nothing. -/
structure CallResult.Answers (gas : UInt64) (moved : World → Prop) (l l' : Ledger)
    (result : CallResult) : Prop where
  saved : l'.saved = l.saved
  failed : result.success = false → l'.world = l.world
  succeeded : result.success = true → moved l'.world
  accounts : result.Accounts gas
  bare : result.Bare

/-- Whether it is a success or a failure, what is done to the world is writes. -/
theorem CallResult.Answers.writes {gas : UInt64} {l l' : Ledger} {result : CallResult}
    (h : result.Answers gas (World.Writes l.world) l l') : World.Writes l.world l'.world := by
  cases success : result.success with
  | true => exact h.succeeded success
  | false => exact h.failed success ▸ .refl

/-- A frame that is entered, with a checkpoint that goes back to where the setting up began. -/
structure Frame.Opens (moved : World → Prop) (enters : Frame → World → Prop) (l l' : Ledger)
    (f : Frame) : Prop where
  saved : l'.saved = l.world :: l.saved
  moved : moved l'.world
  enters : enters f l'.world

/-- What setting up a frame leads to. -/
def Prepared.Follows (gas : UInt64) (moved : World → Prop) (enters : Frame → World → Prop)
    (l l' : Ledger) : Prepared → Prop
  | .finished result => result.Answers gas moved l l'
  | .enter f => f.Opens moved enters l l'

theorem Prepared.Follows.mono {gas : UInt64} {moved moved' : World → Prop}
    {enters enters' : Frame → World → Prop} {l l' : Ledger} {prepared : Prepared}
    (h : prepared.Follows gas moved enters l l') (weaker : ∀ w, moved w → moved' w)
    (weaker_enters : ∀ f w, moved w → enters f w → enters' f w) :
    prepared.Follows gas moved' enters' l l' := by
  cases prepared with
  | finished result => exact { h with succeeded := fun success => weaker _ (h.succeeded success) }
  | enter f => exact ⟨h.saved, weaker _ h.moved, weaker_enters _ _ h.moved h.enters⟩

namespace CallRequest

variable {r : CallRequest} {host : Host} {tx : TxContext} {depth : UInt64} {l l' : Ledger}

/-- What setting up a call does to the accounts: it moves the value, where it carries one. -/
def Moves (r : CallRequest) (w w' : World) : Prop :=
  if r.transfersValue then World.Pays r.caller r.address r.value w w' else w' = w

theorem Moves.writes {w w' : World} (h : r.Moves w w') : World.Writes w w' := by
  simp only [Moves] at h
  split at h
  · exact .single (.pay h)
  · exact h ▸ .refl

theorem finishPrecompile_ok (r : CallRequest) (p : Precompile) {start : Ledger}
    (inside : l.saved = start.world :: start.saved) (moved : r.Moves start.world l.world) :
    ∃ result l', r.finishPrecompile p l = .ok result l' ∧
      result.Answers r.gas (r.Moves start.world) start l' := by
  simp only [finishPrecompile]
  cases paid : p.run r.input r.gas with
  | ok output =>
      obtain ⟨l', done, world, saved⟩ := commit_ok inside
      refine ⟨.plainSuccess r.gas output.gasUsed output.output, l', ?_, saved, ?_, ?_, ?_, ?_⟩
      · simp only [bind_of_ok done]
        rfl
      · intro failed
        cases failed
      · exact fun _ => world ▸ moved
      · exact CallResult.accounts_plainSuccess (Precompile.gasUsed_le paid) _
      · exact ⟨rfl, rfl, rfl⟩
  | error =>
      obtain ⟨l', done, world, saved⟩ := rollback_ok inside
      refine ⟨.ofFault r.gas .outOfGas, l', ?_, saved, fun _ => world, ?_,
        CallResult.accounts_ofFault _ _, ⟨rfl, rfl, rfl⟩⟩
      · simp only [bind_of_ok done]
        rfl
      · intro success
        cases success

theorem setUp_edits (covered : r.transfersValue = true → r.value ≤ l.balance r.caller) :
    Edits (do
      if r.transfersValue then transfer r.caller r.address r.value
      return (← get).code r.codeAddress) l
      (fun _ w => r.Moves l.world w) (·.Overflows l.world) := by
  simp only [Moves]
  split
  · next carries =>
      refine (transfer_edits (covered carries)).bind fun _ l₁ paid => ?_
      exact .after (a := l₁) (t := l₁) rfl (.of_ok rfl paid)
  · exact .after (a := l) (t := l) rfl (.of_ok rfl ⟨rfl, rfl⟩)

theorem admitted {rules : Rules} (h : r.isRefused rules l depth = false) :
    depth ≤ rules.maxCallDepth ∧ (r.transfersValue = true → r.value ≤ l.balance r.caller) := by
  simp only [isRefused, Bool.or_eq_false_iff, decide_eq_false_iff_not, Bool.and_eq_false_iff] at h
  refine ⟨UInt64.not_lt.mp h.1, fun carries => ?_⟩
  obtain free | covered := h.2
  · rw [carries] at free
    cases free
  · exact BitVec.not_lt.mp covered

/-- A call that can be set up is answered at once or enters a frame with the gas of the request. -/
theorem prepare_ensures :
    Ensures (r.prepare host tx depth) l
      (fun prepared l' => prepared.Follows r.gas (r.Moves l.world)
        (fun f _ => depth ≤ host.rules.maxCallDepth ∧
          ∃ code, f = Frame.start (r.environment tx depth) r.target code r.gas) l l')
      (fun e l' => (l'.world = l.world ∧ l'.saved = l.saved) ∧ e.Overflows l.world) := by
  refine .after (a := l) (t := l) rfl ?_
  split
  · refine .of_ok rfl ⟨rfl, fun _ => rfl, ?_, CallResult.accounts_refusal _, ⟨rfl, rfl, rfl⟩⟩
    intro success
    cases success
  · next accepted =>
      obtain ⟨limit, covered⟩ := admitted (Bool.eq_false_iff.mpr accepted)
      refine (withinCheckpoint_ensures (setUp_edits (l := l.checkpoint) covered)).bind
        fun code l₁ ⟨inside, moved⟩ => ?_
      split
      · next p found =>
          obtain ⟨result, l₂, answered, answers⟩ := r.finishPrecompile_ok p inside moved
          exact .after answered (.of_ok rfl answers)
      · split
        · obtain ⟨l₂, closed, world, saved⟩ := commit_ok inside
          refine .after closed (.of_ok rfl ⟨saved, ?_, fun _ => world ▸ moved, ?_, ⟨rfl, rfl, rfl⟩⟩)
          · intro failed
            cases failed
          · exact CallResult.accounts_plainSuccess UInt64.zero_le _
        · exact .of_ok rfl ⟨inside, moved, limit, code, rfl⟩

end CallRequest

namespace CreateRequest

variable {r : CreateRequest} {host : Host} {tx : TxContext} {depth : UInt64} {address : Address}
  {l l' : Ledger}

/-- What setting up a creation does to the accounts: the new account is there. -/
def Creates (address : Address) (w w' : World) : Prop :=
  World.Writes w w' ∧ (w'.account? address).isSome

theorem pays_edits {start : Ledger} (covered : r.value ≤ l.balance r.creator)
    (saved : l.saved = start.saved) (made : Creates address start.world l.world) :
    Ensures (if r.value ≠ 0 then transfer r.creator address r.value else pure ()) l
      (fun _ l' => l'.saved = start.saved ∧ Creates address start.world l'.world)
      (fun e l' => l'.saved = start.saved ∧ e.Overflows start.world) := by
  split
  · refine (transfer_edits covered).mono (fun _ _ ⟨same, paid⟩ => ?_) fun _ _ ⟨same, large⟩ => ?_
    · have write := World.Write.pay paid
      exact ⟨same.trans saved, made.1.tail write, write.isSome made.2⟩
    · exact ⟨same.trans saved, large.before made.1⟩
  · exact .of_ok rfl ⟨saved, made⟩

theorem setUp_edits (rules : Rules) (covered : r.value ≤ l.balance r.creator)
    (free : collides l address = false) :
    Edits (r.setUp rules address) l (fun _ w => Creates address l.world w)
      (·.Overflows l.world) := by
  simp only [collides, Bool.or_eq_false_iff, bne_eq_false_iff_eq, Bool.not_eq_false'] at free
  have made : Creates address l.world (l.createAccount address).world := by
    refine ⟨.single (.create l address free), ?_⟩
    simp [Ledger.createAccount]
  rw [← l.balance_createAccount address] at covered
  refine .after (t := l.createAccount address) rfl ?_
  dsimp only
  split
  · refine .after (t := (l.createAccount address).modifyAccount address fun account =>
      { account with nonce := account.nonce + rules.createNonce }) rfl ?_
    have write := World.Write.raise (l.createAccount address) address rules.createNonce
    refine pays_edits ?_ (by simp) ⟨made.1.tail write, write.isSome made.2⟩
    rwa [Ledger.balance_raiseNonce]
  · exact pays_edits covered (by simp) made

/-- A creation at an address is answered at once, where the address is taken, or enters its init
frame with the gas of the request. -/
theorem enter_ensures (covered : r.value ≤ l.balance r.creator) :
    Ensures (r.enter host tx depth address) l
      (fun prepared l' => prepared.Follows r.gas (Creates address l.world) (fun f _ => f =
        Frame.start (r.environment tx depth address) (.account address) r.initCode r.gas) l l')
      (fun e l' => (l'.world = l.world ∧ l'.saved = l.saved) ∧ e.Overflows l.world) := by
  refine .after (a := l) (t := l) rfl ?_
  split
  · refine .of_ok rfl ⟨rfl, fun _ => rfl, ?_, CallResult.accounts_ofFault _ _, ⟨rfl, rfl, rfl⟩⟩
    intro success
    cases success
  · next free =>
      refine (withinCheckpoint_ensures (setUp_edits (l := l.checkpoint) _ covered
        (Bool.eq_false_iff.mpr free))).bind fun _ l₁ ⟨inside, made⟩ => ?_
      exact .of_ok rfl ⟨inside, made, rfl⟩

theorem admitted {rules : Rules} (h : r.isRefused rules l depth = false) :
    depth ≤ rules.maxCallDepth ∧ r.value ≤ l.balance r.creator := by
  simp only [isRefused, Bool.or_eq_false_iff, decide_eq_false_iff_not] at h
  exact ⟨UInt64.not_lt.mp h.1, BitVec.not_lt.mp h.2⟩

/-- The ledger on which the checkpoint of a creation is opened: the creator's nonce is raised by
then, unless the request is refused. -/
def opening (r : CreateRequest) (rules : Rules) (depth : UInt64) (l : Ledger) : Ledger :=
  if r.isRefused rules l depth then l else l.bumpNonce r.creator

theorem saved_opening (r : CreateRequest) (rules : Rules) (depth : UInt64) (l : Ledger) :
    (r.opening rules depth l).saved = l.saved := by
  simp only [opening]
  split
  · rfl
  · exact l.saved_bumpNonce r.creator

theorem writes_opening (r : CreateRequest) (rules : Rules) (depth : UInt64) (l : Ledger) :
    World.Writes l.world (r.opening rules depth l).world := by
  simp only [opening]
  split
  · exact .refl
  · exact .single (.raise l r.creator 1)

/-- A creation below another frame is refused, or it is entered once the creator's nonce is
raised. -/
theorem prepare_ensures :
    Ensures (r.prepare host tx depth) l
      (fun answer l' => ∃ address, answer.1.Follows r.gas
        (Creates address (r.opening host.rules depth l).world)
        (fun f _ => depth ≤ host.rules.maxCallDepth ∧ answer.2 = some address ∧
          f = Frame.start (r.environment tx depth address) (.account address) r.initCode r.gas)
        (r.opening host.rules depth l) l')
      (fun e l' => l'.saved = l.saved ∧ e.Overflows l.world) := by
  refine .after (a := l) (t := l) rfl ?_
  cases refused : r.isRefused host.rules l depth with
  | true =>
      have opened : r.opening host.rules depth l = l := if_pos refused
      refine .of_ok rfl ⟨0, ?_⟩
      rw [opened]
      refine ⟨rfl, fun _ => rfl, ?_, CallResult.accounts_refusal _, ⟨rfl, rfl, rfl⟩⟩
      intro success
      cases success
  | false =>
      have opened : r.opening host.rules depth l = l.bumpNonce r.creator :=
        if_neg (Bool.eq_false_iff.mp refused)
      obtain ⟨limit, covered⟩ := admitted refused
      have covered : r.value ≤ (l.bumpNonce r.creator).balance r.creator := by
        rwa [Ledger.bumpNonce, Ledger.balance_raiseNonce]
      rw [opened]
      refine .after (a := l) (t := l) rfl (.after (t := l.bumpNonce r.creator) rfl ?_)
      refine Ensures.bind (enter_ensures covered |>.mono (fun _ _ follows => follows)
        fun e l' ⟨restored, large⟩ => ?_) fun prepared l₁ follows => ?_
      · refine ⟨restored.2.trans (l.saved_bumpNonce r.creator), ?_⟩
        exact large.before (.single (.raise l r.creator 1))
      · refine .of_ok rfl ⟨_, follows.mono (fun _ made => made) ?_⟩
        rintro f _ - rfl
        exact ⟨limit, rfl, rfl⟩

end CreateRequest

namespace Frame

variable {f : Frame} {host : Host} {l l' : Ledger} {result : CallResult}

/-- Depositing code only fails where the account is not there. -/
theorem depositCode_edits (rules : Rules) (result : CallResult) (address : Address) :
    Edits (depositCode rules result address) l (fun _ w => World.Writes l.world w)
      (fun _ => l.world.account? address = none) := by
  rw [depositCode]
  dsimp only
  split
  · exact .of_ok rfl ⟨rfl, .refl⟩
  · split
    · split <;> exact .of_ok rfl ⟨rfl, .refl⟩
    · cases stored : l.saveCode address result.returnData with
      | ok l₁ =>
          have saves : onLedger (·.saveCode address result.returnData) l = .ok () l₁ := by
            simp only [onLedger, stored]
          refine .after saves (.of_ok rfl ?_)
          exact ⟨Ledger.saved_saveCode stored, .single (.deposit stored)⟩
      | error cause =>
          have refused : onLedger (·.saveCode address result.returnData) l =
              .error (.state cause) l := by simp only [onLedger, stored]
          refine .of_error (bind_of_error refused) ⟨rfl, ?_⟩
          rw [Ledger.saveCode] at stored
          split at stored
          · cases stored
          · next absent => exact Option.not_isSome_iff_eq_none.mp absent

theorem settled_ensures {w : World} {rest : List World} (inside : l.saved = w :: rest) :
    Ensures (f.settled host.rules) l
      (fun _ l' => l'.saved = w :: rest ∧ World.Writes l.world l'.world)
      (fun _ l' => (l'.world = w ∧ l'.saved = rest) ∧
        ∃ a, f.target = .account a ∧ l.world.account? a = none) := by
  rw [settled]
  split
  · next address target =>
      split
      · refine (orDiscard_ensures (depositCode_edits _ _ _) inside).mono (fun _ _ done => done)
          fun _ _ failed => ?_
        exact ⟨failed.1, address, target, failed.2⟩
      · exact .of_ok rfl ⟨inside, .refl⟩
  · exact .of_ok rfl ⟨inside, .refl⟩

theorem close_ok (result : CallResult) {w : World} {rest : List World}
    (inside : l.saved = w :: rest) :
    ∃ l', onLedger (if result.success then Ledger.commit else Ledger.rollback) l = .ok () l' ∧
      l'.saved = rest ∧ l'.world = if result.success then l.world else w := by
  cases result.success with
  | true =>
      obtain ⟨l', done, world, saved⟩ := commit_ok inside
      exact ⟨l', done, saved, world⟩
  | false =>
      obtain ⟨l', done, world, saved⟩ := rollback_ok inside
      exact ⟨l', done, saved, world⟩

/-- A frame that is finished closes its checkpoint, and one that failed leaves nothing behind. -/
theorem complete_ensures {w : World} {rest : List World} (inside : l.saved = w :: rest) :
    Ensures (f.complete host) l
      (fun result l' => l'.saved = rest ∧ (result.success = false → l'.world = w) ∧
        (result.success = true → World.Writes l.world l'.world))
      (fun _ l' => (l'.world = w ∧ l'.saved = rest) ∧
        ∃ a, f.target = .account a ∧ l.world.account? a = none) := by
  rw [complete_eq]
  refine (settled_ensures inside).bind fun result l₁ ⟨kept, writes⟩ => ?_
  obtain ⟨l₂, closed, saved, world⟩ := close_ok result kept
  refine .after closed (.of_ok rfl ⟨saved, fun failed => ?_, fun success => ?_⟩)
  · rwa [failed] at world
  · rw [success, if_pos rfl] at world
    exact world ▸ writes

end Frame
end EvmEngine
