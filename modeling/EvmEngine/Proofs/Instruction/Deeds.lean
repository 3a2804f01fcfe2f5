import EvmEngine.Proofs.Frame.Deeds
import EvmEngine.Proofs.Instruction.Moves
import EvmEngine.Proofs.Instruction.Requests

/-!
The deeds of an instruction. LOG and SELFDESTRUCT do one each where they succeed; what they do is
read off the operands here, not off the record of the frame. Every other instruction does none, and
one that fails with a fault leaves the record of its frame as it was.
-/

namespace EvmEngine

open Effects Exec Focus

namespace Frame

/-- What LOG writes in a frame with so many topics: offset and length of the data are on top of the
stack, the topics below. -/
def logEntry (f : Frame) (topics : Nat) : Log where
  address := f.env.address
  topics := (f.stack.words.drop 2).take topics
  data :=
    let span := chargedSpan (f.stack.words.getD 0 0) (f.stack.words.getD 1 0)
    f.memory.read span.1 span.2

/-- A frame with the record of another. -/
structure KeepsRecord (f f' : Frame) : Prop where
  env : f'.env = f.env
  logs : f'.logs = f.logs
  destroyed : f'.destroyed = f.destroyed

namespace KeepsRecord

theorem refl (f : Frame) : f.KeepsRecord f :=
  ⟨rfl, rfl, rfl⟩

theorem trans {f g h : Frame} (first : f.KeepsRecord g) (second : g.KeepsRecord h) :
    f.KeepsRecord h :=
  ⟨second.env.trans first.env, second.logs.trans first.logs,
    second.destroyed.trans first.destroyed⟩

theorem tells {f f' : Frame} {deeds : List Deed} (h : f.KeepsRecord f') (tells : f.Tells deeds) :
    f'.Tells deeds := by
  rw [Tells, h.logs, h.destroyed]
  exact tells

end KeepsRecord

theorem Works.keepsRecord {f f' : Frame} (works : f.Works f') : f.KeepsRecord f' :=
  ⟨works.env, works.logs, works.destroyed⟩

end Frame

theorem Focus.Pays.keepsRecord {price : Nat} {s s' : Focus} (h : s.Pays price s') :
    s.frame.KeepsRecord s'.frame := by
  rw [h.frame]
  exact ⟨rfl, rfl, rfl⟩

namespace Opcode

/-- What an instruction that succeeds has done in a frame that was about to run it. -/
def deed? (op : Opcode) (f : Frame) : Option Deed :=
  match op with
  | .log topics => some (.log (f.logEntry topics))
  | .selfDestruct => some (.destroy f.env.address)
  | _ => none

end Opcode

/-- What the next instruction does in a frame, if it succeeds. -/
def Focus.deed? (s : Focus) (host : Host) (fetched : Fetched) : Option Deed :=
  match fetched with
  | .instruction entry =>
      match entry.dispatch host s with
      | .ok _ _ => entry.opcode.deed? s.frame
      | .error _ _ => none
  | .interrupted | .endOfCode | .illegal _ => none

namespace Focus

variable {op : Opcode} {s s' : Focus}

theorem Change.keepsRecord (h : Change op s s') (notLog : ∀ topics, op ≠ .log topics)
    (notDestruct : op ≠ .selfDestruct) : s.frame.KeepsRecord s'.frame := by
  cases h with
  | work works => exact works.keepsRecord
  | refund | store => exact ⟨rfl, rfl, rfl⟩
  | log _ isLog => exact absurd isLog (notLog _)
  | destroy isDestruct | debit isDestruct | credit isDestruct => exact absurd isDestruct notDestruct

theorem Moves.keepsRecord (h : Moves op s s') (notLog : ∀ topics, op ≠ .log topics)
    (notDestruct : op ≠ .selfDestruct) : s.frame.KeepsRecord s'.frame := by
  induction h with
  | refl => exact .refl _
  | tail _ change ih => exact ih.trans (change.keepsRecord notLog notDestruct)

end Focus

namespace Exec

/-- What every instruction may do leaves the record of the frame alone. -/
theorem Within.keepsRecord {α : Type} {x : Exec α} (within : ∀ env, Within .stop env x)
    (s : Focus) :
    Ensures x s (fun _ s' => s.frame.KeepsRecord s'.frame)
      (fun _ s' => s.frame.KeepsRecord s'.frame) := by
  have moves := (within s.frame.env s rfl).moves
  refine ⟨fun run => ?_, fun run => ?_⟩
  · rw [endState_ok run] at moves
    exact moves.keepsRecord (by simp) (by simp)
  · rw [endState_error run] at moves
    exact moves.keepsRecord (by simp) (by simp)

/-- What is known after an action of an instruction: one thing where it succeeds, and where it fails
with a fault, that the record is still that of these deeds. Any other error ends the run. -/
abbrev Does {α : Type} (deeds : List Deed) (post : Focus → Prop) (x : Exec α) (s : Focus) : Prop :=
  Ensures x s (fun _ s' => post s') (fun e s' => (∃ cause, e = .fault cause) → s'.frame.Tells deeds)

section
variable {α β : Type} {deeds : List Deed} {post : Focus → Prop} {x : Exec α} {f : α → Exec β}
  {s : Focus}

theorem does_after (within : ∀ env, Within .stop env x) (tells : s.frame.Tells deeds)
    (next : ∀ a t, t.frame.Tells deeds → t.frame.env = s.frame.env → Does deeds post (f a) t) :
    Does deeds post (x >>= f) s := by
  refine ((Within.keepsRecord within s).mono (fun _ _ kept => kept) fun _ _ kept _ => ?_).bind
    fun a t kept => next a t (kept.tells tells) kept.env
  exact kept.tells tells

theorem does_then {b : β} (h : Does deeds post x s) : Does deeds post (x >>= fun _ => pure b) s :=
  h.bind fun _ _ done => .of_ok rfl done

end
end Exec

namespace Instruction

variable {deeds : List Deed} {s s' : Focus}

theorem log_ok {host : Host} {topics : Nat} {u : Unit} (h : log host topics s = .ok u s') :
    s'.frame.logs = s.frame.logs.push (s.frame.logEntry topics) ∧
      s'.frame.destroyed = s.frame.destroyed := by
  obtain ⟨_, _, checked, h⟩ := bind_eq_ok.mp h
  obtain ⟨-, rfl⟩ := requireMutable_ok checked
  obtain ⟨⟨offset, size⟩, s₁, popped, h⟩ := bind_eq_ok.mp h
  obtain ⟨stack₁, taken, rfl⟩ := ofStack_ok popped
  obtain ⟨words, s₂, popped, h⟩ := bind_eq_ok.mp h
  obtain ⟨stack₂, takes, rfl⟩ := ofStack_ok popped
  obtain ⟨span, s₃, charged, h⟩ := bind_eq_ok.mp h
  obtain ⟨charges, rfl, grown⟩ := chargeMemory_ok charged
  obtain ⟨_, s₄, spent, h⟩ := bind_eq_ok.mp h
  obtain ⟨pays, memory, -⟩ := spend_ok spent
  have kept := charges.keepsRecord.trans pays.keepsRecord
  cases h
  have operands : s.frame.stack.words = offset :: size :: stack₁.words := Stack.pop2_ok taken
  have below : words = stack₁.words.take topics := by
    simp only [Stack.popN] at takes
    split at takes <;> cases takes
    rfl
  refine ⟨?_, kept.destroyed⟩
  have entry : s.frame.logEntry topics =
      { address := s₄.frame.env.address
        topics := words
        data := s₄.frame.memory.read (Frame.chargedSpan offset size).1
          (Frame.chargedSpan offset size).2 } := by
    rw [memory, grown, kept.env, below]
    simp [Frame.logEntry, Frame.grown, Memory.read_extend, operands]
  rw [entry]
  show s₄.frame.logs.push _ = _
  rw [kept.logs]

/-- Only the last action of LOG writes the log, and it cannot fail. -/
theorem log_does (host : Host) (topics : Nat) (tells : s.frame.Tells deeds) :
    Does deeds (fun s' => s'.frame.Tells (deeds ++ [.log (s.frame.logEntry topics)]))
      (log host topics) s := by
  have fails : Does deeds (fun _ => True) (log host topics) s := by
    refine does_after (fun _ => within_mutable) tells fun _ s tells _ => ?_
    refine does_after (fun _ => within_ofStack) tells fun ⟨offset, size⟩ s tells _ => ?_
    refine does_after (fun _ => within_ofStack) tells fun words s tells _ => ?_
    refine does_after (fun _ => within_chargeMemory _ _ _) tells fun span s tells _ => ?_
    exact does_after (fun _ => within_spend _) tells fun _ s tells _ => .of_ok rfl trivial
  refine ⟨fun run => ?_, fun failed => fails.error failed⟩
  obtain ⟨logs, destroyed⟩ := log_ok run
  rw [Frame.Tells, logs, destroyed]
  exact tells.log _

/-- Giving the balance away can only fail with an error that ends the run. -/
theorem payOut_does {done : List Deed} (source destination : Address) (amount : Word)
    (tells : s.frame.Tells done) :
    Does deeds (fun s' => s'.frame.Tells done) (do
      onLedger (·.debit source amount)
      onLedger (·.credit destination amount)
      modifyFrame (·.halted .stopped)) s := by
  have pays (f : Ledger → Except StateError Ledger) (s : Focus) (tells : s.frame.Tells done) :
      Does deeds (fun s' => s'.frame.Tells done) (onLedger f) s := by
    cases run : f s.ledger with
    | ok l =>
        have done : onLedger f s = .ok () { s with ledger := l } := by simp only [onLedger, run]
        exact .of_ok done tells
    | error cause =>
        have refused : onLedger f s = .error (.state cause) s := by simp only [onLedger, run]
        refine .of_error refused fun fault => ?_
        obtain ⟨cause, fault⟩ := fault
        cases fault
  refine (pays _ s tells).bind fun _ s tells => (pays _ s tells).bind fun _ s tells => ?_
  exact .of_ok rfl ((s.frame.works_halted .stopped).keepsRecord.tells tells)

theorem selfDestruct_does (host : Host) (tells : s.frame.Tells deeds) :
    Does deeds (fun s' => s'.frame.Tells (deeds ++ [.destroy s.frame.env.address]))
      (selfDestruct host) s := by
  have destroys (s : Focus) (account beneficiary : Address) (balance : Word)
      (tells : s.frame.Tells deeds) :
      Does deeds (fun s' => s'.frame.Tells (deeds ++ [.destroy account])) (do
        modifyFrame (·.recordDestroyed account)
        if beneficiary ≠ account ∧ balance ≠ 0 then
          onLedger (·.debit account balance)
          onLedger (·.credit beneficiary balance)
        modifyFrame (·.halted .stopped)) s := by
    have noted : (s.frame.recordDestroyed account).Tells (deeds ++ [.destroy account]) := by
      rw [Frame.recordDestroyed_eq]
      exact tells.destroy account
    refine .after (t := { s with frame := s.frame.recordDestroyed account }) rfl ?_
    dsimp only
    split
    · exact payOut_does (s := { s with frame := s.frame.recordDestroyed account }) _ _ _ noted
    · exact .of_ok rfl ((Frame.works_halted _ .stopped).keepsRecord.tells noted)
  refine does_after (fun _ => within_mutable) tells fun _ s₁ tells env₁ => ?_
  refine does_after (fun _ => within_ofStack) tells fun word s₂ tells env₂ => ?_
  refine .after (a := s₂.frame) (t := s₂) rfl (.after (a := s₂.ledger) (t := s₂) rfl ?_)
  rw [← env₁, ← env₂]
  dsimp only
  split
  · refine does_after (fun _ => within_spend _) tells fun _ s₃ tells env₃ => ?_
    exact destroys s₃ _ _ _ tells
  · exact destroys s₂ _ _ _ tells

end Instruction

open Instruction

namespace Opcode

theorem perform_does (host : Host) (op : Opcode) {deeds : List Deed} {s : Focus}
    (tells : s.frame.Tells deeds) :
    Does deeds (fun s' => s'.frame.Tells (deeds ++ (op.deed? s.frame).toList)) (op.perform host)
      s := by
  by_cases isLog : ∃ topics, op = .log topics
  · obtain ⟨topics, rfl⟩ := isLog
    exact does_then (log_does host topics tells)
  · by_cases isDestruct : op = .selfDestruct
    · rw [isDestruct]
      exact does_then (selfDestruct_does host tells)
    · have notLog (topics : Fin 5) (same : op = .log topics) : False := isLog ⟨topics, same⟩
      have moves := (op.within_perform host s.frame.env s rfl).moves
      have kept := (moves.keepsRecord notLog isDestruct).tells tells
      have nothing : op.deed? s.frame = none := by
        cases op with
        | log topics => exact absurd rfl (notLog topics)
        | selfDestruct => exact absurd rfl isDestruct
        | _ => rfl
      rw [nothing, Option.toList_none, List.append_nil]
      refine ⟨fun run => ?_, fun run _ => ?_⟩
      · rwa [endState_ok run] at kept
      · rwa [endState_error run] at kept

/-- What an instruction does is told by the operands, which the checks before it do not touch. -/
theorem deed?_of_pays {price : Nat} {s t : Focus} (op : Opcode) (pays : s.Pays price t)
    (memory : t.frame.memory = s.frame.memory) (stack : t.frame.stack = s.frame.stack) :
    op.deed? t.frame = op.deed? s.frame := by
  cases op with
  | log | selfDestruct => simp only [deed?, Frame.logEntry, pays.env, memory, stack]
  | _ => rfl

end Opcode

theorem OpcodeEntry.dispatch_does (host : Host) (entry : OpcodeEntry) {deeds : List Deed}
    {s : Focus} (tells : s.frame.Tells deeds) :
    Does deeds (fun s' => s'.frame.Tells (deeds ++ (entry.opcode.deed? s.frame).toList))
      (entry.dispatch host) s := by
  refine .after (a := s.frame) (t := s) rfl ?_
  cases s.frame.stack.require entry.inputs entry.outputs with
  | error cause =>
      have failed : (Exec.fail cause : Exec PUnit) s = .error (.fault cause) s := rfl
      exact .of_error (bind_of_error failed) fun _ => tells
  | ok =>
      have paid := (Within.keepsRecord (x := spend entry.baseGas) (fun _ => within_spend _) s)
      cases spent : spend entry.baseGas s with
      | error e t => exact .of_error (bind_of_error spent) fun _ => (paid.error spent).tells tells
      | ok u t =>
          obtain ⟨pays, memory, stack⟩ := spend_ok spent
          rw [← entry.opcode.deed?_of_pays pays memory stack]
          exact .after spent (entry.opcode.perform_does host (pays.keepsRecord.tells tells))

namespace Focus

variable {host : Host} {fetched : Fetched} {control : Control} {s s' : Focus} {deeds : List Deed}

/-- After a step the record of the frame is that of one deed more, if the instruction does one. -/
theorem step_tells (stepped : s.step host fetched = .ok control s') (tells : s.frame.Tells deeds) :
    s'.frame.Tells (deeds ++ (s.deed? host fetched).toList) := by
  cases fetched with
  | interrupted | endOfCode | illegal =>
      cases stepped
      rw [deed?, Option.toList_none, List.append_nil]
      exact (s.frame.works_halted _).keepsRecord.tells tells
  | instruction entry =>
      have does := entry.dispatch_does host tells
      simp only [step, deed?] at stepped ⊢
      cases run : entry.dispatch host s with
      | ok control t =>
          simp only [run] at stepped ⊢
          cases stepped
          split
          · exact (t.frame.works_advance 1).keepsRecord.tells (does.ok run)
          · exact does.ok run
      | error e t =>
          cases e with
          | fault cause =>
              simp only [run] at stepped ⊢
              cases stepped
              rw [Option.toList_none, List.append_nil]
              exact (t.frame.works_halted _).keepsRecord.tells (does.error run ⟨cause, rfl⟩)
          | state | intrinsicGas | config | run =>
              simp only [run] at stepped
              cases stepped

end Focus
end EvmEngine
