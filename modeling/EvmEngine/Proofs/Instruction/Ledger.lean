import EvmEngine.Proofs.Instruction.Moves
import EvmEngine.Proofs.Ledger.Writes

/-!
What an instruction does to the ledger. One that succeeds has made a number of writes; the two halves
of a payment only occur together there. One that fails has met a fault of its frame, or a payment
that does not fit a word. In a frame that may not change the state nothing is written at all.
-/

namespace EvmEngine

open Effects Exec Focus

namespace Focus

variable {op : Opcode} {s s' : Focus}

theorem Change.writes (h : Change op s s') (other : op ≠ .selfDestruct) :
    World.Writes s.ledger.world s'.ledger.world := by
  cases h with
  | work | refund | log | destroy => exact .refl
  | store key value => exact .single (.store s.ledger s.frame.env.address key value)
  | debit isDestruct | credit isDestruct => exact absurd isDestruct other

theorem Moves.writes (h : Moves op s s') (other : op ≠ .selfDestruct) :
    World.Writes s.ledger.world s'.ledger.world := by
  induction h with
  | refl => exact .refl
  | tail _ change ih => exact ih.trans (change.writes other)

/-- What a frame that may not change the state leaves as it is. -/
structure Leaves (s s' : Focus) : Prop where
  ledger : s'.ledger = s.ledger
  refund : s'.frame.refund = s.frame.refund
  logs : s'.frame.logs = s.frame.logs
  destroyed : s'.frame.destroyed = s.frame.destroyed

namespace Leaves

theorem refl (s : Focus) : Leaves s s :=
  ⟨rfl, rfl, rfl, rfl⟩

theorem trans {s t u : Focus} (first : Leaves s t) (second : Leaves t u) : Leaves s u :=
  ⟨second.ledger.trans first.ledger, second.refund.trans first.refund,
    second.logs.trans first.logs, second.destroyed.trans first.destroyed⟩

end Leaves
end Focus

theorem Frame.Works.leaves {s : Focus} {f : Frame} (works : s.frame.Works f) :
    Focus.Leaves s { s with frame := f } :=
  ⟨rfl, works.refund, works.logs, works.destroyed⟩

namespace Focus

variable {op : Opcode} {s s' : Focus}

theorem Change.leaves (h : Change op s s') (static : s.frame.env.isStatic = true) :
    Leaves s s' := by
  cases h with
  | work works => exact works.leaves
  | refund _ _ mutable | log _ _ mutable | destroy _ mutable | store _ _ _ mutable
  | debit _ mutable | credit _ mutable =>
      rw [static] at mutable
      cases mutable

theorem Moves.leaves (h : Moves op s s') (static : s.frame.env.isStatic = true) :
    Leaves s s' := by
  induction h with
  | refl => exact .refl s
  | tail moves change ih =>
      have same := Moves.env moves
      exact ih.trans (change.leaves (same ▸ static))

end Focus

namespace Exec

/-- An action that leaves the ledger and the record of its frame alone and can only fail with a
fault. -/
abbrev Quiet {α : Type} (x : Exec α) (s : Focus) : Prop :=
  Ensures x s (fun _ s' => s.Leaves s') (fun e s' => (∃ cause, e = .fault cause) ∧ s.Leaves s')

/-- What every instruction may do is work inside the frame. -/
theorem Within.quiet {α : Type} {x : Exec α} (within : ∀ env, Within .stop env x) (s : Focus) :
    Quiet x s := by
  obtain ⟨moves, faults⟩ := within s.frame.env s rfl
  have same {s' : Focus} (moves : Moves .stop s s') : s.Leaves s' := by
    induction moves with
    | refl => exact .refl s
    | tail _ change ih =>
        cases change with
        | work works => exact ih.trans works.leaves
        | refund _ other | log _ other | destroy other | store _ _ other | debit other
        | credit other => cases other
  refine ⟨fun run => ?_, fun run => ⟨faults (by simp) _ _ run, ?_⟩⟩
  · rw [endState_ok run] at moves
    exact same moves
  · rw [endState_error run] at moves
    exact same moves

end Exec

/-- How an instruction may fail, and the world in which it does: with a fault of its frame, or over
balances that do not fit a word. -/
def EngineError.Arises (w : World) (e : EngineError) (w' : World) : Prop :=
  (∃ cause, e = .fault cause) ∧ World.Writes w w' ∨ e.Overflows w

namespace Exec

/-- An action that writes to the world given, and fails over nothing but a fault or a payment. -/
abbrev Edits {α : Type} (w : World) (x : Exec α) (s : Focus) : Prop :=
  Ensures x s (fun _ s' => World.Writes w s'.ledger.world) (fun e s' => e.Arises w s'.ledger.world)

theorem edits_after_quiet {α β : Type} {x : Exec α} {f : α → Exec β} {l : Ledger} {s : Focus}
    (same : s.ledger = l) (within : ∀ env, Within .stop env x)
    (next : ∀ a t, t.ledger = l → Edits l.world (f a) t) : Edits l.world (x >>= f) s := by
  refine ((Within.quiet within s).mono (fun _ _ kept => kept.ledger.trans same) fun _ t fault =>
    ?_).bind next
  obtain ⟨fault, kept⟩ := fault
  refine .inl ⟨fault, ?_⟩
  rw [kept.ledger, same]

end Exec

namespace Instruction

/-- Giving an amount that is there away can only fail over the balance of the one who gets it. -/
theorem payOut_edits {s : Focus} {source destination : Address} {amount : Word}
    (covered : amount ≤ s.ledger.balance source) :
    Edits s.ledger.world (do
      onLedger (·.debit source amount)
      onLedger (·.credit destination amount)
      modifyFrame (·.halted .stopped)) s := by
  obtain ⟨l₁, debited⟩ : ∃ l₁, s.ledger.debit source amount = .ok l₁ :=
    ⟨_, Ledger.debit_eq_ok.mpr ⟨covered, rfl⟩⟩
  have taken : onLedger (·.debit source amount) s = .ok () { s with ledger := l₁ } := by
    simp only [onLedger, debited]
  refine .after taken ?_
  cases credited : l₁.credit destination amount with
  | ok l₂ =>
      have given : onLedger (·.credit destination amount) { s with ledger := l₁ } =
          .ok () { s with ledger := l₂ } := by simp only [onLedger, credited]
      have paid : World.Pays source destination amount s.ledger.world l₂.world :=
        ⟨s.ledger, l₁, l₂, debited, credited, rfl, rfl⟩
      exact .after given (.of_ok rfl (.single (.pay paid)))
  | error cause =>
      have refused : onLedger (·.credit destination amount) { s with ledger := l₁ } =
          .error (.state cause) { s with ledger := l₁ } := by simp only [onLedger, credited]
      obtain ⟨rfl, large⟩ := Ledger.credit_after_debit debited credited
      exact .of_error (bind_of_error refused) (.inr ⟨⟨_, rfl⟩, large⟩)

/-- The end of a self-destruct: the account is noted and its balance given away. -/
theorem destroy_edits {s : Focus} {l : Ledger} (same : s.ledger = l) (account beneficiary : Address) :
    Edits l.world (do
      modifyFrame (·.recordDestroyed account)
      if beneficiary ≠ account ∧ l.balance account ≠ 0 then
        onLedger (·.debit account (l.balance account))
        onLedger (·.credit beneficiary (l.balance account))
      modifyFrame (·.halted .stopped)) s := by
  subst same
  refine .after (t := { s with frame := s.frame.recordDestroyed account }) rfl ?_
  dsimp only
  split
  · exact payOut_edits (s := { s with frame := s.frame.recordDestroyed account }) (BitVec.le_refl _)
  · exact .of_ok rfl .refl

theorem selfDestruct_edits (host : Host) (s : Focus) :
    Edits s.ledger.world (selfDestruct host) s := by
  refine edits_after_quiet rfl (fun _ => within_mutable) fun _ s₁ same₁ => ?_
  refine edits_after_quiet same₁ (fun _ => within_ofStack) fun word s₂ same₂ => ?_
  refine .after (a := s₂.frame) (t := s₂) rfl (.after (a := s₂.ledger) (t := s₂) rfl ?_)
  rw [same₂]
  dsimp only
  split
  · exact edits_after_quiet same₂ (fun _ => within_spend _) fun _ s₃ same₃ => destroy_edits same₃ _ _
  · exact destroy_edits same₂ _ _

end Instruction

namespace OpcodeEntry

theorem dispatch_edits (host : Host) (entry : OpcodeEntry) (s : Focus) :
    Edits s.ledger.world (entry.dispatch host) s := by
  by_cases isDestruct : entry.opcode = .selfDestruct
  · refine .after (a := s.frame) (t := s) rfl ?_
    cases s.frame.stack.require entry.inputs entry.outputs with
    | error cause =>
        have failed : (Exec.fail cause : Exec PUnit) s = .error (.fault cause) s := rfl
        exact .of_error (bind_of_error failed) (.inl ⟨⟨cause, rfl⟩, .refl⟩)
    | ok =>
        refine edits_after_quiet (x := Exec.spend entry.baseGas) rfl (fun _ => within_spend _)
          fun _ t same => ?_
        rw [isDestruct, ← same]
        exact (Instruction.selfDestruct_edits host t).bind fun _ u writes => .of_ok rfl writes
  · obtain ⟨moves, faults⟩ := entry.within_dispatch host s.frame.env s rfl
    refine ⟨fun run => ?_, fun run => .inl ⟨faults isDestruct _ _ run, ?_⟩⟩
    · rw [endState_ok run] at moves
      exact moves.writes isDestruct
    · rw [endState_error run] at moves
      exact moves.writes isDestruct

end OpcodeEntry

namespace Focus

/-- A step that is made only writes; an error that is passed on is about balances that do not fit a
word. -/
theorem step_edits (s : Focus) (host : Host) (fetched : Fetched) :
    Ensures (fun s => s.step host fetched) s
      (fun _ s' => World.Writes s.ledger.world s'.ledger.world)
      (fun e _ => e.Overflows s.ledger.world) := by
  cases fetched with
  | interrupted | endOfCode | illegal => exact .of_ok rfl .refl
  | instruction entry =>
      have edits := entry.dispatch_edits host s
      cases run : entry.dispatch host s with
      | ok control t =>
          have stepped : s.step host (.instruction entry) = .ok control
              (if control.advances then { t with frame := t.frame.advance 1 } else t) := by
            simp only [step, run]
          have same : (if control.advances then { t with frame := t.frame.advance 1 }
              else t : Focus).ledger = t.ledger := by split <;> rfl
          refine .of_ok stepped ?_
          rw [same]
          exact edits.ok run
      | error e t =>
          obtain ⟨⟨cause, rfl⟩, writes⟩ | ⟨⟨a, rfl⟩, large⟩ := edits.error run
          · have stepped : s.step host (.instruction entry) =
                .ok .halted { t with frame := t.frame.halted (.faulted cause) } := by
              simp only [step, run]
            exact .of_ok stepped writes
          · have stepped : s.step host (.instruction entry) =
                .error (.state (.balanceOverflow a)) t := by simp only [step, run]
            exact .of_error stepped ⟨⟨a, rfl⟩, large⟩

theorem step_leaves {s s' : Focus} {host : Host} {fetched : Fetched} {control : Control}
    (static : s.frame.env.isStatic = true) (h : s.step host fetched = .ok control s') :
    Leaves s s' := by
  obtain ⟨op, moves⟩ := s.step_moves host fetched
  simp only [endState, h] at moves
  exact moves.leaves static

end Focus
end EvmEngine
