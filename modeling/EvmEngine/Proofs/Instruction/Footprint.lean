import EvmEngine.Proofs.Exec.Counter
import EvmEngine.Proofs.Instruction.SelfDestruct
import EvmEngine.Proofs.Instruction.StackSafety
import EvmEngine.Proofs.Instruction.Storage

/-!
What a step touches, whatever comes of it. Only two instructions write to the ledger: a write to
storage changes one slot of the account that the frame acts on, and a self-destruct moves a balance
from there to the beneficiary. A fault comes before all writes; the one error that comes after a
write, a balance that does not fit the beneficiary's, is not a fault of the frame.
-/

namespace EvmEngine

open Effects Exec

/-- The instruction that a step is to run, if any. -/
def Fetched.opcode? : Fetched → Option Opcode
  | instruction entry => some entry.opcode
  | interrupted | endOfCode | illegal _ => none

namespace Focus

variable {op : Opcode} {op? : Option Opcode} {s s' t u : Focus}

theorem Change.ledger (h : Change op s s') (noStore : op ≠ .sstore)
    (noDestruct : op ≠ .selfDestruct) : s'.ledger = s.ledger := by
  cases h with
  | work | log | destroy => rfl
  | refund _ isStore | store _ _ isStore => exact absurd isStore noStore
  | debit isDestruct | credit isDestruct => exact absurd isDestruct noDestruct

/-- Only two instructions write to the ledger. -/
theorem Moves.ledger (h : Moves op s s') (noStore : op ≠ .sstore)
    (noDestruct : op ≠ .selfDestruct) : s'.ledger = s.ledger := by
  induction h with
  | refl => rfl
  | tail _ change ih => exact (change.ledger noStore noDestruct).trans ih

theorem Change.frame_code (h : Change op s s') : s'.frame.code = s.frame.code := by
  cases h with
  | work works => exact works.code
  | destroy => exact (s.frame.stays_recordDestroyed _).code
  | refund | log | store | debit | credit => rfl

theorem Moves.frame_code (h : Moves op s s') : s'.frame.code = s.frame.code := by
  induction h with
  | refl => rfl
  | tail _ change ih => exact change.frame_code.trans ih

/-- How a self-destruct fails: with a fault, before it touches the ledger, or because what has left
the account does not fit the balance of the beneficiary. -/
inductive DestroyFails (s : Focus) : EngineError → Focus → Prop
  | fault {t : Focus} (cause : Fault) (ledger : t.ledger = s.ledger) :
      DestroyFails s (.fault cause) t
  | overflow {t : Focus} (cause : StateError) (amount : Word)
      (taken : s.ledger.debit s.frame.env.address amount = .ok t.ledger)
      (halt : t.frame.halt = s.frame.halt) : DestroyFails s (.state cause) t

/-- Paying for it before makes no difference. -/
theorem DestroyFails.after {α : Type} {x : Exec α} {post : α → Focus → Prop} {price : Nat}
    (pays : s.Pays price t) (h : Ensures x u post t.DestroyFails) :
    Ensures x u post s.DestroyFails := by
  refine h.mono (fun _ _ done => done) fun e v fails => ?_
  cases fails with
  | fault cause ledger => exact .fault cause (ledger.trans pays.ledger)
  | overflow cause amount taken halt =>
      rw [pays.ledger, pays.env] at taken
      exact .overflow cause amount taken (halt.trans pays.halt)

/-- What a step can have done to the ledger. Where it has written to it, the frame has not
faulted. -/
inductive Footprint (op? : Option Opcode) (s t : Focus) : Prop
  | nothing (ledger : t.ledger = s.ledger)
  | slot (key value : Word) (isStore : op? = some .sstore)
      (ledger : t.ledger = s.ledger.store s.frame.env.address key value)
      (running : t.frame.isRunning = true)
  | gift (isDestruct : op? = some .selfDestruct) (given : s.GivesUp t)
  | debit (amount : Word) (isDestruct : op? = some .selfDestruct)
      (taken : s.ledger.debit s.frame.env.address amount = .ok t.ledger)
      (running : t.frame.isRunning = true)

theorem Footprint.advance (h : Footprint op? s t) (n : Nat) :
    Footprint op? s { t with frame := t.frame.advance n } := by
  cases h with
  | nothing ledger => exact .nothing ledger
  | slot key value isStore ledger running => exact .slot key value isStore ledger running
  | gift isDestruct given =>
      exact .gift isDestruct
        ⟨given.emptied, given.kept, given.others, given.spared, given.halted, given.noted⟩
  | debit amount isDestruct taken running => exact .debit amount isDestruct taken running

/-- An action that does to the ledger only what a step may, and nothing where it meets a fault. -/
abbrev Marks {α : Type} (op? : Option Opcode) (x : Exec α) (s : Focus) : Prop :=
  Ensures x s (fun _ t => Footprint op? s t) fun e t =>
    Footprint op? s t ∧ ∀ cause, e = .fault cause → t.ledger = s.ledger

end Focus

namespace Instruction

open Focus

variable {host : Host} {s t : Focus}

/-- A write to storage that succeeds leaves its frame running. -/
theorem sstore_running {v : Unit} (running : s.frame.isRunning = true)
    (h : sstore host s = .ok v t) : t.frame.isRunning = true := by
  obtain ⟨-, taken, left, rest, before, -, count, -⟩ := takes_sstore host s v t h
  have enough : 2 ≤ s.frame.stack.size := by
    rw [Stack.size, before, List.length_append, count]
    exact Nat.le_add_right _ _
  exact (safe_sstore host s ⟨running, enough, fun none => absurd rfl none⟩).ok h

/-- Before anything is given away, only faults can stop a self-destruct. -/
theorem destroyFails_bind {α β : Type} {x : Exec α} {f : α → Exec β}
    (within : ∀ env, Within .stop env x)
    (next : ∀ a t, x s = .ok a t → Ensures (f a) t (fun _ _ => True) s.DestroyFails) :
    Ensures (x >>= f) s (fun _ _ => True) s.DestroyFails := by
  have quiet := Within.quiet within s
  have first : Ensures x s (fun a t => x s = .ok a t) s.DestroyFails := by
    refine ⟨fun ran => ran, fun failed => ?_⟩
    obtain ⟨⟨cause, rfl⟩, left⟩ := quiet.error failed
    exact .fault cause left.ledger
  exact first.bind next

theorem destroy_fails {account beneficiary : Address} {balance : Word}
    (own : s.frame.env.address = account) (holds : s.ledger.balance account = balance) :
    Ensures (do
      modifyFrame (·.recordDestroyed account)
      if beneficiary ≠ account ∧ balance ≠ 0 then
        onLedger (·.debit account balance)
        onLedger (·.credit beneficiary balance)
      modifyFrame (·.halted .stopped) : Exec Unit) s (fun _ _ => True) s.DestroyFails := by
  subst own holds
  have halt : (s.frame.recordDestroyed s.frame.env.address).halt = s.frame.halt := by
    rw [Frame.recordDestroyed_eq]
  refine .after (t := { s with frame := s.frame.recordDestroyed s.frame.env.address }) rfl ?_
  dsimp only
  split
  -- What is there can be taken, so only the beneficiary's balance can refuse it.
  · obtain ⟨l₁, debited⟩ : ∃ l₁, s.ledger.debit s.frame.env.address
        (s.ledger.balance s.frame.env.address) = .ok l₁ :=
      ⟨_, Ledger.debit_eq_ok.mpr ⟨BitVec.le_refl _, rfl⟩⟩
    refine .after (a := ()) (t := ⟨s.frame.recordDestroyed s.frame.env.address, l₁⟩)
      (by simp only [onLedger, debited]) ?_
    cases credited : l₁.credit beneficiary (s.ledger.balance s.frame.env.address) with
    | ok l₂ =>
        exact .after (a := ()) (t := ⟨s.frame.recordDestroyed s.frame.env.address, l₂⟩)
          (by simp only [onLedger, credited]) (.of_ok rfl trivial)
    | error cause =>
        exact .of_error (t := ⟨s.frame.recordDestroyed s.frame.env.address, l₁⟩)
          (bind_of_error (by simp only [onLedger, credited])) (.overflow cause _ debited halt)
  · exact .of_ok rfl trivial

theorem selfDestruct_fails (host : Host) (s : Focus) :
    Ensures (selfDestruct host) s (fun _ _ => True) s.DestroyFails := by
  refine destroyFails_bind (fun _ => within_mutable) fun _ t free => ?_
  obtain ⟨-, rfl⟩ := requireMutable_ok free
  refine destroyFails_bind (fun _ => within_ofStack) fun word t popped => ?_
  obtain ⟨stack, -, rfl⟩ := ofStack_ok popped
  have popped : s.Pays 0 { s with frame := { s.frame with stack } } := ⟨rfl, rfl, rfl⟩
  refine DestroyFails.after popped (.after rfl (.after rfl ?_))
  dsimp only
  split
  · refine destroyFails_bind (fun _ => within_spend _) fun _ t spent => ?_
    have pays := (spend_ok spent).1
    exact DestroyFails.after pays (destroy_fails (by rw [pays.env]) (by rw [pays.ledger]))
  · exact destroy_fails rfl rfl

end Instruction

namespace OpcodeEntry

open Focus

variable (host : Host) {entry : OpcodeEntry} {s : Focus}

theorem dispatch_selfDestruct_fails (isDestruct : entry.opcode = .selfDestruct) :
    Ensures (entry.dispatch host) s (fun _ _ => True) s.DestroyFails := by
  refine .after (a := s.frame) (t := s) rfl ?_
  cases s.frame.stack.require entry.inputs entry.outputs with
  | error cause => exact .of_error (bind_of_error rfl) (.fault cause rfl)
  | ok =>
      refine Instruction.destroyFails_bind (fun _ => within_spend _) fun _ t spent => ?_
      rw [isDestruct]
      refine DestroyFails.after (spend_ok spent).1 ?_
      exact (Instruction.selfDestruct_fails host t).bind fun _ _ _ => .of_ok rfl trivial

theorem dispatch_footprint_of_store (isStore : entry.opcode = .sstore)
    (running : s.frame.isRunning = true) : Marks (some entry.opcode) (entry.dispatch host) s := by
  have ends := entry.dispatch_leaving isStore host s
  constructor
  · intro control t ran
    obtain ⟨key, value, stored⟩ := ends.ok ran
    obtain ⟨-, u, pays, -, -, performed⟩ := entry.dispatch_ok ran
    rw [isStore] at performed
    obtain ⟨_, u', done, same⟩ := bind_eq_ok.mp performed
    obtain ⟨-, rfl⟩ := pure_eq_ok.mp same
    exact .slot key value (congrArg some isStore) stored.ledger
      (Instruction.sstore_running (pays.isRunning.trans running) done)
  · intro e t failed
    have same := (ends.error failed).ledger
    exact ⟨.nothing same, fun _ _ => same⟩

theorem dispatch_footprint_of_destruct (isDestruct : entry.opcode = .selfDestruct)
    (running : s.frame.isRunning = true) : Marks (some entry.opcode) (entry.dispatch host) s := by
  constructor
  · intro control t ran
    obtain ⟨-, u, pays, -, stack, performed⟩ := entry.dispatch_ok ran
    rw [isDestruct] at performed
    have given := Opcode.selfDestruct_givesUp (pays.isRunning.trans running) performed
    exact .gift (congrArg some isDestruct) (given.2.of_pays pays stack)
  · intro e t failed
    cases (dispatch_selfDestruct_fails host isDestruct).error failed with
    | fault cause same => exact ⟨.nothing same, fun _ _ => same⟩
    | overflow cause amount taken halt =>
        have still : t.frame.isRunning = true := by
          rw [Frame.isRunning, halt]
          exact running
        refine ⟨.debit amount (congrArg some isDestruct) taken still, fun _ isFault => ?_⟩
        cases isFault

theorem dispatch_footprint (running : s.frame.isRunning = true) :
    Marks (some entry.opcode) (entry.dispatch host) s := by
  by_cases isStore : entry.opcode = .sstore
  · exact dispatch_footprint_of_store host isStore running
  · by_cases isDestruct : entry.opcode = .selfDestruct
    · exact dispatch_footprint_of_destruct host isDestruct running
    · have moves := (entry.within_dispatch host s.frame.env s rfl).moves
      have same := moves.ledger isStore isDestruct
      constructor
      · intro control t ran
        rw [endState_ok ran] at same
        exact .nothing same
      · intro e t failed
        rw [endState_error failed] at same
        exact ⟨.nothing same, fun _ _ => same⟩

end OpcodeEntry

namespace Focus

variable {s t : Focus} {op? : Option Opcode}

theorem footprint_of_step (host : Host) (running : s.frame.isRunning = true) (fetched : Fetched) :
    Footprint fetched.opcode? s (endState (fun s => s.step host fetched) s) := by
  cases fetched with
  | interrupted | endOfCode | illegal => exact .nothing rfl
  | instruction entry =>
      have ends := entry.dispatch_footprint host running
      simp only [endState, step]
      cases ran : entry.dispatch host s with
      | ok control t =>
          have print := ends.ok ran
          dsimp only
          split
          · exact print.advance 1
          · exact print
      | error e t =>
          obtain ⟨print, kept⟩ := ends.error ran
          cases e with
          | fault cause => exact .nothing (kept cause rfl)
          | state | intrinsicGas | config | run => exact print

/-- A step changes nothing but what its instruction owns. -/
structure Confined (op? : Option Opcode) (s t : Focus) : Prop where
  env : t.frame.env = s.frame.env
  code : t.frame.code = s.frame.code
  checkpoints : t.ledger.depth = s.ledger.depth
  nonces (a : Address) : t.ledger.nonce a = s.ledger.nonce a
  codes (a : Address) : t.ledger.code a = s.ledger.code a
  storage : (∀ place, t.ledger.world.slot? place = s.ledger.world.slot? place) ∨
    op? = some .sstore ∧ ∃ key, ∀ place, place ≠ (s.frame.env.address, key) →
      t.ledger.world.slot? place = s.ledger.world.slot? place
  balances (a : Address) : t.ledger.balance a = s.ledger.balance a ∨
    op? = some .selfDestruct ∧ (a = s.frame.env.address ∨ a = s.frame.beneficiary)
  faulted (cause : Fault) : t.frame.halt = .faulted cause → t.ledger = s.ledger

theorem Footprint.accounts (h : Footprint op? s t) (a : Address) :
    t.ledger.nonce a = s.ledger.nonce a ∧ t.ledger.code a = s.ledger.code a := by
  cases h with
  | nothing ledger => exact ⟨by rw [ledger], by rw [ledger]⟩
  | slot key value _ ledger =>
      constructor
      · simp [ledger, Ledger.nonce, Ledger.store]
      · simp [ledger, Ledger.code, Ledger.store]
  | gift _ given => exact ⟨(given.spared a).nonce, (given.spared a).code⟩
  | debit amount _ taken =>
      have spared := Ledger.spared_debit taken a
      exact ⟨spared.nonce, spared.code⟩

theorem Footprint.storage (h : Footprint op? s t) :
    (∀ place, t.ledger.world.slot? place = s.ledger.world.slot? place) ∨
      op? = some .sstore ∧ ∃ key, ∀ place, place ≠ (s.frame.env.address, key) →
        t.ledger.world.slot? place = s.ledger.world.slot? place := by
  cases h with
  | nothing ledger => exact .inl fun place => by rw [ledger]
  | slot key value isStore ledger =>
      refine .inr ⟨isStore, key, fun place other => ?_⟩
      simp [ledger, Ledger.store, Ne.symm other]
  | gift _ given => exact .inl fun place => (given.spared place.1).slots place.2
  | debit amount _ taken =>
      exact .inl fun place => (Ledger.spared_debit taken place.1).slots place.2

theorem Footprint.balances (h : Footprint op? s t) (a : Address) :
    t.ledger.balance a = s.ledger.balance a ∨
      op? = some .selfDestruct ∧ (a = s.frame.env.address ∨ a = s.frame.beneficiary) := by
  cases h with
  | nothing ledger => exact .inl (by rw [ledger])
  | slot key value _ ledger => exact .inl (by simp [ledger, Ledger.balance, Ledger.store])
  | gift isDestruct given =>
      by_cases owned : a = s.frame.env.address ∨ a = s.frame.beneficiary
      · exact .inr ⟨isDestruct, owned⟩
      · exact .inl (given.others a (not_or.mp owned).1 (not_or.mp owned).2)
  | debit amount isDestruct taken =>
      by_cases own : a = s.frame.env.address
      · exact .inr ⟨isDestruct, .inl own⟩
      · have left := Ledger.balance_debit taken a
        rw [if_neg (Ne.symm own), Nat.add_zero] at left
        exact .inl (BitVec.eq_of_toNat_eq left)

theorem Footprint.faulted (h : Footprint op? s t) {cause : Fault}
    (halt : t.frame.halt = .faulted cause) : t.ledger = s.ledger := by
  have ended : t.frame.isRunning = false := by
    rw [Frame.isRunning, halt]
    rfl
  cases h with
  | nothing ledger => exact ledger
  | gift _ given => cases given.halted.symm.trans halt
  | slot _ _ _ _ running | debit _ _ _ running => cases running.symm.trans ended

/-- One step of a frame that runs, whatever it returns, touches only what its instruction owns. No
nonce, no code and no checkpoint is touched, nor what the frame was entered with. A write to storage
may change one slot of the account of the frame, and a self-destruct the balances of that account
and of the beneficiary. A step that ends the frame with a fault has changed nothing in any
account. -/
theorem step_confined (host : Host) (fetched : Fetched) {s : Focus}
    (running : s.frame.isRunning = true) :
    Confined fetched.opcode? s (endState (fun s => s.step host fetched) s) := by
  have print := footprint_of_step host running fetched
  obtain ⟨op, moves⟩ := s.step_moves host fetched
  refine ⟨moves.env, moves.frame_code, ?_, fun a => (print.accounts a).1,
    fun a => (print.accounts a).2, print.storage, print.balances, fun _ => print.faulted⟩
  rw [← Ledger.length_saved, moves.keeps.saved, Ledger.length_saved]

/-- A self-destruct in favour of an account that can hold no more: the step returns an error, with
the balance gone from the account that gave it. -/
theorem step_confined_beneficiary_full :
    let host := Host.ofRules (.ofFork .istanbul) fun _ => none
    let world := (World.empty.setAccount 7 (some ⟨5, 3, ⟨#[0xff]⟩, 0⟩)).setAccount 9
      (some ⟨BitVec.allOnes 256, 1, ByteArray.empty, 0⟩)
    let env : Environment :=
      ⟨.message .call, 7, 7, 2, 2, 0, ByteArray.empty, 0, Block.genesis, 0, false⟩
    let f := Frame.start env (.span 0 0) ⟨#[0xff]⟩ 100000
    let s : Focus := ⟨{ f with stack := ⟨[9]⟩ }, Ledger.ofWorld world⟩
    let fetched := s.frame.fetch host false
    s.frame.isRunning = true ∧ fetched.opcode? = some .selfDestruct ∧
      answer (fun s => s.step host fetched) s = .error (.state (.balanceOverflow 9)) ∧
      (endState (fun s => s.step host fetched) s).ledger.balance 7 = 0 ∧
      Confined (some .selfDestruct) s (endState (fun s => s.step host fetched) s) := by
  intro host world env f s fetched
  have isDestruct : fetched.opcode? = some .selfDestruct := by decide +kernel
  have running : s.frame.isRunning = true := rfl
  refine ⟨running, isDestruct, by decide +kernel, by decide +kernel, ?_⟩
  rw [← isDestruct]
  exact step_confined host fetched running

end Focus
end EvmEngine
