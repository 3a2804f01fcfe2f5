import EvmEngine.Proofs.Instruction.StackSafety
import EvmEngine.Proofs.Machine.Room

/-!
The opcode table and what the instructions do agree. The interpreter checks a stack once, against the
arity that the table gives; after that no instruction finds too few words or too little room, so that
every stack in reach of a run stays within its bound.
-/

namespace EvmEngine

open Effects

namespace Opcode

theorem outputs_of_request {op : Opcode} (asks : op.isRequest = true) : op.outputs = 1 := by
  cases op with
  | create scheme | call scheme => rfl
  | _ => cases asks

theorem leaves_of_request {op : Opcode} (asks : op.isRequest = true) : op.leaves = 0 :=
  if_pos asks

theorem leaves_of_quiet {op : Opcode} (quiet : op.isRequest = false) : op.leaves = op.outputs :=
  if_neg (Bool.eq_false_iff.mp quiet)

theorem outputs_le (op : Opcode) : op.outputs ≤ op.inputs + 1 := by
  have bounded := op.leaves_le
  split at bounded
  · next asks =>
      rw [outputs_of_request asks]
      omega
  · next quiet => rwa [leaves_of_quiet (Bool.eq_false_iff.mpr quiet)] at bounded

end Opcode

/-- What an instruction of this arity, where it succeeds, does to the stack of a frame and to whether
the frame runs. A frame that asks for another one still lacks one word, for which there is room. -/
structure Focus.Exchanges (inputs outputs : Nat) (s : Focus) (control : Control) (t : Focus) :
    Prop where
  below : ∃ top, t.frame.stack.words = top ++ s.frame.stack.words.drop inputs
  running : t.frame.isRunning = control.goesOn
  size : control.isRequest = false →
    t.frame.stack.size = s.frame.stack.size - inputs + outputs
  request : control.isRequest = true →
    t.frame.stack.size = s.frame.stack.size - inputs ∧ outputs = 1 ∧
      ∀ result target, ∃ f, Frame.absorb result target t.frame = .ok () f ∧
        f.stack.size = s.frame.stack.size - inputs + outputs

namespace OpcodeEntry

variable {host : Host} {entry : OpcodeEntry} {s t : Focus} {e : EngineError}

/-- A stack that passes the check, and whose size is not the largest number there is, has room for
what is left. -/
theorem room_of_require (listed : entry.Listed host.rules) {stack : Stack}
    (counted : stack.size + 1 < UInt64.size)
    (required : stack.require entry.inputs entry.outputs = .ok ()) :
    entry.inputs ≤ stack.size ∧ stack.size - entry.inputs + entry.outputs ≤ Stack.capacity := by
  obtain ⟨enough, room⟩ := Stack.require_ok required
  have few : entry.outputs ≤ entry.inputs + 1 := by
    rw [listed.inputs, listed.outputs]
    exact entry.opcode.outputs_le
  rw [Nat.mod_eq_of_lt (by omega)] at room
  exact ⟨enough, room⟩

theorem provides (listed : entry.Listed host.rules) (running : s.frame.isRunning = true)
    (counted : s.frame.stack.size + 1 < UInt64.size)
    (required : s.frame.stack.require entry.inputs entry.outputs = .ok ()) :
    s.frame.Provides entry.opcode.inputs entry.opcode.leaves := by
  obtain ⟨enough, room⟩ := room_of_require listed counted required
  rw [listed.inputs] at enough room
  refine ⟨running, enough, fun some => ?_⟩
  cases kind : entry.opcode.isRequest with
  | true => exact absurd (Opcode.leaves_of_request kind) some
  | false =>
      rw [Opcode.leaves_of_quiet kind, ← listed.outputs]
      exact room

theorem perform_agrees (listed : entry.Listed host.rules) (running : s.frame.isRunning = true)
    (counted : s.frame.stack.size + 1 < UInt64.size)
    (required : s.frame.stack.require entry.inputs entry.outputs = .ok ()) :
    Ensures (entry.opcode.perform host) s (s.Exchanges entry.inputs entry.outputs)
      (s.Refused entry.inputs) := by
  have safe := entry.opcode.safe_perform host s (provides listed running counted required)
  obtain ⟨enough, room⟩ := room_of_require listed counted required
  refine ⟨fun {control t} ran => ?_, fun failed => listed.inputs ▸ safe.error failed⟩
  obtain ⟨kind, taken, left, rest, before, after, count, given⟩ :=
    entry.opcode.nets_perform host s control t ran
  have below : s.frame.stack.words.drop entry.inputs = rest := by
    rw [before, listed.inputs, ← count, List.drop_left]
  have size : t.frame.stack.size = s.frame.stack.size - entry.inputs + entry.opcode.leaves := by
    simp only [Stack.size, before, after, List.length_append, given, count, listed.inputs]
    omega
  refine ⟨⟨left, below ▸ after⟩, safe.ok ran, fun quiet => ?_, fun asks => ?_⟩
  · rw [size, Opcode.leaves_of_quiet (kind ▸ quiet), ← listed.outputs]
  · have one : entry.outputs = 1 := listed.outputs.trans (Opcode.outputs_of_request (kind ▸ asks))
    rw [Opcode.leaves_of_request (kind ▸ asks), Nat.add_zero] at size
    refine ⟨size, one, fun result target => ⟨t.frame.resumed result target, ?_, ?_⟩⟩
    · rw [Frame.absorb_eq, if_neg (by omega)]
    · rw [Stack.size, Frame.stack_resumed, List.length_cons, ← Stack.size, size, one]

/-- A frame whose instruction fails, whether over the check, the price or the work, still runs, and
has no more words than before. -/
theorem dispatch_refused (listed : entry.Listed host.rules) (running : s.frame.isRunning = true)
    (counted : s.frame.stack.size + 1 < UInt64.size)
    (failed : entry.dispatch host s = .error e t) :
    t.frame.isRunning = true ∧ t.frame.stack.size ≤ s.frame.stack.size := by
  have ends : Ensures (entry.dispatch host) s (fun _ _ => True) fun _ t =>
      t.frame.isRunning = true ∧ t.frame.stack.size ≤ s.frame.stack.size := by
    refine .after rfl ?_
    cases required : s.frame.stack.require entry.inputs entry.outputs with
    | error cause => exact .of_error rfl ⟨running, Nat.le_refl _⟩
    | ok =>
        have before : s.frame.Provides 0 0 :=
          ⟨running, Nat.zero_le _, fun none => absurd rfl none⟩
        cases spent : Exec.spend entry.baseGas s with
        | error e u =>
            obtain ⟨-, runs, taken, -, words⟩ := (Exec.draws_spend _).safe s before |>.error spent
            refine .of_error (bind_of_error spent) ⟨runs, ?_⟩
            rw [Stack.size, words, List.length_drop, Stack.size]
            omega
        | ok _ u =>
            obtain ⟨pays, -, stack⟩ := Exec.spend_ok spent
            have runs := (Exec.draws_spend _).safe s before |>.ok spent
            rw [← stack] at required counted
            have safe := entry.opcode.safe_perform host u (provides listed runs counted required)
            refine .after spent (safe.mono (fun _ _ _ => trivial) fun _ v refused => ?_)
            obtain ⟨-, still, taken, -, words⟩ := refused
            refine ⟨still, ?_⟩
            rw [Stack.size, words, List.length_drop, stack, Stack.size]
            omega
  exact ends.error failed

end OpcodeEntry

/-- The machine that a number of iterations leaves, whether or not the run is over. -/
def Progress.machine : Progress → Machine
  | more m | finished _ m | failed _ m => m

namespace Machine

variable {host : Host} {m m' : Machine}

/-- No stack holds more words than a stack takes. -/
def Within (m : Machine) : Prop :=
  ∀ f ∈ m.frames, f.stack.size ≤ Stack.capacity

section
variable {f f' : Frame}

theorem counted_of_within {stack : Stack} (within : stack.size ≤ Stack.capacity) :
    stack.size + 1 < UInt64.size :=
  Nat.lt_of_le_of_lt (Nat.succ_le_succ within) (by decide)

theorem halted_within {f : Frame} (within : f.stack.size ≤ Stack.capacity) (halt : Halt) :
    (f.halted halt).stack.size ≤ Stack.capacity := by
  simp only [Frame.halted]
  split <;> exact within

theorem step_within {s : Focus} {fetched : Fetched}
    (listed : ∀ entry, fetched = .instruction entry → entry.Listed host.rules)
    (running : s.frame.isRunning = true) (within : s.frame.stack.size ≤ Stack.capacity) :
    Ensures (fun s => s.step host fetched) s (fun _ t => t.frame.stack.size ≤ Stack.capacity)
      fun _ t => t.frame.stack.size ≤ Stack.capacity := by
  cases fetched with
  | interrupted | endOfCode | illegal => exact .of_ok rfl (halted_within within _)
  | instruction entry =>
      have listed := listed entry rfl
      cases ran : entry.dispatch host s with
      | ok control t =>
          have stepped : s.step host (.instruction entry) = .ok control
              (if control.advances then { t with frame := t.frame.advance 1 } else t) := by
            simp only [Focus.step, ran]
          refine .of_ok stepped ?_
          have size := entry.size_of_dispatch listed within ran
          split <;> exact size
      | error e t =>
          have fewer := (entry.dispatch_refused listed running (counted_of_within within) ran).2
          have size := Nat.le_trans fewer within
          cases e with
          | fault cause =>
              have stepped : s.step host (.instruction entry) =
                  .ok .halted { t with frame := t.frame.halted (.faulted cause) } := by
                simp only [Focus.step, ran]
              exact .of_ok stepped (halted_within size _)
          | state | intrinsicGas | config | run =>
              refine ⟨fun done => ?_, fun done => ?_⟩
              · simp only [Focus.step, ran] at done
                cases done
              · simp only [Focus.step, ran] at done
                cases done
                exact size

theorem absorbed_within {result : CallResult} {target : ReturnTarget} {u : Unit}
    (absorbed : Frame.absorb result target f = .ok u f') : f'.stack.size ≤ Stack.capacity := by
  rw [Frame.absorb_eq] at absorbed
  split at absorbed
  · cases absorbed
  · next room =>
      cases absorbed
      rw [Stack.size, Frame.stack_resumed, List.length_cons]
      exact Nat.not_le.mp room

theorem refused_within {result : CallResult} {target : ReturnTarget} {cause : Fault}
    (within : f.stack.size ≤ Stack.capacity)
    (refused : Frame.absorb result target f = .error cause f') :
    f'.stack.size ≤ Stack.capacity := by
  rw [Frame.absorb_eq] at refused
  split at refused
  · cases refused
    rwa [Frame.stack_receive]
  · cases refused

end

theorem Step.within (step : Step host m m') (h : m.Within) : m'.Within := by
  cases step with
  | ran running stepped quiet =>
      obtain ⟨top, rest⟩ := List.forall_mem_cons.mp h
      have asked := (step_within (fun _ => Frame.listed_of_fetch) running top).ok stepped
      exact List.forall_mem_cons.mpr ⟨asked, rest⟩
  | answered running stepped asks set absorbed =>
      obtain ⟨-, rest⟩ := List.forall_mem_cons.mp h
      exact List.forall_mem_cons.mpr ⟨absorbed_within absorbed, rest⟩
  | @entered f f₁ child _ _ _ _ _ _ _ _ _ _ running stepped asks set =>
      obtain ⟨top, rest⟩ := List.forall_mem_cons.mp h
      obtain ⟨entered, -⟩ := (Focus.step_entered stepped asks set).enters
      have fresh : child.stack.size ≤ Stack.capacity := by
        rw [entered.fresh]
        exact Nat.zero_le _
      have asked := (step_within (fun _ => Frame.listed_of_fetch) running top).ok stepped
      exact List.forall_mem_cons.mpr ⟨fresh, List.forall_mem_cons.mpr ⟨asked, rest⟩⟩
  | returned ended completed absorbed =>
      obtain ⟨-, waiting⟩ := List.forall_mem_cons.mp h
      obtain ⟨-, rest⟩ := List.forall_mem_cons.mp waiting
      exact List.forall_mem_cons.mpr ⟨absorbed_within absorbed, rest⟩

theorem Failure.within {e : EngineError} (failure : Failure host m e m') (h : m.Within) :
    m'.Within := by
  cases failure with
  | noFrame => exact h
  | stopped running stepped =>
      obtain ⟨top, rest⟩ := List.forall_mem_cons.mp h
      have left := (step_within (fun _ => Frame.listed_of_fetch) running top).error stepped
      exact List.forall_mem_cons.mpr ⟨left, rest⟩
  | refused running stepped asks failed =>
      obtain ⟨top, rest⟩ := List.forall_mem_cons.mp h
      have asked := (step_within (fun _ => Frame.listed_of_fetch) running top).ok stepped
      exact List.forall_mem_cons.mpr ⟨asked, rest⟩
  | answered running stepped asks set refused =>
      obtain ⟨top, rest⟩ := List.forall_mem_cons.mp h
      have asked := (step_within (fun _ => Frame.listed_of_fetch) running top).ok stepped
      exact List.forall_mem_cons.mpr ⟨refused_within asked refused, rest⟩
  | unfinished failed =>
      exact (List.forall_mem_cons.mp h).2
  | returned completed refused =>
      obtain ⟨-, waiting⟩ := List.forall_mem_cons.mp h
      obtain ⟨top, rest⟩ := List.forall_mem_cons.mp waiting
      exact List.forall_mem_cons.mpr ⟨refused_within top refused, rest⟩

theorem Leads.within {p : Progress} (leads : Leads host m p) (h : m.Within) : p.machine.Within := by
  cases leads with
  | more step => exact step.within h
  | finished ended completed => exact fun f member => by cases member
  | failed failure => exact failure.within h

theorem iterate_within (n : Nat) (h : m.Within) : (iterate host n m).machine.Within := by
  induction n generalizing m with
  | zero => exact h
  | succ n ih =>
      have once := (m.advance_leads host).within h
      simp only [iterate]
      split
      · next next advanced =>
          rw [advanced] at once
          exact ih once
      · exact once

/-- Where a stack passes the check against the table, the instruction agrees with the table: it never
fails over the stack, leaves the words below its operands alone, and leaves as many words as the
table says, less the one that comes later for an instruction that asks for a frame. It ends the frame
just where it says so; one that fails leaves it running, so that the fault is what ends it. Hence no
stack in reach of a run exceeds its bound. The check counts in machine integers, so the size of a
stack is one, with room for one word more. -/
theorem table_agrees (host : Host) :
    (∀ (byte : UInt8) (entry : OpcodeEntry) (s : Focus),
      (OpcodeTable.ofRules host.rules).get? byte = some entry → s.frame.isRunning = true →
      s.frame.stack.size + 1 < UInt64.size →
      s.frame.stack.require entry.inputs entry.outputs = .ok () →
      Ensures (entry.opcode.perform host) s (s.Exchanges entry.inputs entry.outputs)
        (s.Refused entry.inputs)) ∧
    (∀ (byte : UInt8) (entry : OpcodeEntry) (s t : Focus) (cause : Fault),
      (OpcodeTable.ofRules host.rules).get? byte = some entry → s.frame.isRunning = true →
      s.frame.stack.size + 1 < UInt64.size →
      entry.dispatch host s = .error (.fault cause) t →
      s.step host (.instruction entry) =
        .ok .halted { t with frame := { t.frame with halt := .faulted cause } }) ∧
    ∀ (env : Environment) (target : ReturnTarget) (code : ByteArray) (gas : UInt64)
      (ledger : Ledger) (watch : Watch) (n : Nat),
      (iterate host n ⟨ledger, [Frame.start env target code gas], watch⟩).machine.Within := by
  have listed {byte : UInt8} {entry : OpcodeEntry}
      (found : (OpcodeTable.ofRules host.rules).get? byte = some entry) :
      entry.Listed host.rules := by
    rw [OpcodeTable.get?_ofRules] at found
    exact Rules.listed_of_entry found
  refine ⟨fun byte entry s found => OpcodeEntry.perform_agrees (listed found),
    fun byte entry s t cause found running counted failed => ?_,
    fun env target code gas ledger watch n => iterate_within n fun f member => ?_⟩
  · obtain ⟨still, -⟩ := entry.dispatch_refused (listed found) running counted failed
    simp only [Focus.step, failed, Frame.halted, still, if_true]
  · obtain rfl := List.mem_singleton.mp member
    exact Nat.zero_le _

/-- ADD with its two operands, and with none, where nothing but the check stops it. -/
theorem table_agrees_add :
    let host := Host.ofRules (.ofFork .istanbul) fun _ => none
    let env : Environment :=
      ⟨.message .call, 1, 1, 2, 2, 0, ByteArray.empty, 0, Block.genesis, 0, false⟩
    let f := Frame.start env (.span 0 0) ⟨#[0x01]⟩ 100
    let s : Focus := ⟨{ f with stack := ⟨[3, 4, 5]⟩ }, .ofWorld .empty⟩
    let short : Focus := ⟨f, .ofWorld .empty⟩
    let entry : OpcodeEntry := ⟨.binary .add, 2, 1, 3⟩
    (OpcodeTable.ofRules host.rules).get? 0x01 = some entry ∧ s.frame.isRunning = true ∧
      s.frame.stack.size + 1 < UInt64.size ∧
      s.frame.stack.require entry.inputs entry.outputs = .ok () ∧
      Ensures (entry.opcode.perform host) s (s.Exchanges 2 1) (s.Refused 2) ∧
      entry.dispatch host short = .error (.fault (.stackTooSmall 2 0)) short ∧
      short.step host (.instruction entry) =
        .ok .halted ⟨{ f with halt := .faulted (.stackTooSmall 2 0) }, .ofWorld .empty⟩ ∧
      (iterate host 3 ⟨.ofWorld .empty, [f], Watch.start false none⟩).machine.Within := by
  intro host env f s short entry
  have found : (OpcodeTable.ofRules host.rules).get? 0x01 = some entry := by
    rw [OpcodeTable.get?_ofRules]
    decide
  obtain ⟨agrees, faults, within⟩ := table_agrees host
  exact ⟨found, rfl, by decide, rfl, agrees 0x01 entry s found rfl (by decide) rfl, rfl,
    faults 0x01 entry short short _ found rfl (by decide) rfl, within env _ _ _ _ _ 3⟩

end Machine
end EvmEngine
