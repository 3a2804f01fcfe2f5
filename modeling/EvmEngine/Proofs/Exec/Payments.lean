import EvmEngine.Proofs.Instruction.Requests
import EvmEngine.Proofs.Pricing.Memory

/-!
Payments for memory. Each charge for a span is written down with the size of memory before and after
it and with the gas it took out of the frame, as the actions of an instruction are run one after the
other. An action that is neither a charge nor a spending of gas may change neither the gas nor the
size of memory. So the sizes in the payments form a chain: memory grows in charges and nowhere else,
and what is paid for a chain is the difference between the prices of its ends, whatever lies between.
-/

namespace EvmEngine

open Effects

/-- The price of a memory of so many bytes. -/
def GasSchedule.memoryPrice (gas : GasSchedule) (size : Nat) : Nat :=
  (Gas.memoryCost (Gas.ofLength (size / 32)) gas.memoryWord gas.memoryQuadDivisor).toNat

theorem GasSchedule.memoryPrice_zero (gas : GasSchedule) : gas.memoryPrice 0 = 0 :=
  Gas.memoryCost_zero _ _

theorem GasSchedule.memoryPrice_mono (gas : GasSchedule) {size size' : Nat} (le : size ≤ size') :
    gas.memoryPrice size ≤ gas.memoryPrice size' := by
  refine Gas.memoryCost_mono _ _ ?_
  have words : size / 32 ≤ size' / 32 := Nat.div_le_div_right le
  rw [UInt64.le_iff_toNat_le, Gas.toNat_ofLength, Gas.toNat_ofLength]
  omega

/-- A charge for memory: the size before it and after it, and the gas it took. -/
structure Payment where
  before : Nat
  after : Nat
  gas : Nat
  deriving DecidableEq

namespace Payment

variable {schedule : GasSchedule} {payments more : List Payment} {first middle last : Nat}

def total (payments : List Payment) : Nat :=
  (payments.map Payment.gas).sum

theorem total_nil : total [] = 0 := rfl

theorem total_append (payments more : List Payment) :
    total (payments ++ more) = total payments + total more := by
  simp only [total, List.map_append, List.sum_append_nat]

/-- Payments that lead from one size of memory to another: each begins at the size where the one
before it ended, and what it takes is what the larger memory costs more. -/
def Reaches (schedule : GasSchedule) (first : Nat) : List Payment → Nat → Prop
  | [], last => last = first
  | p :: payments, last =>
      p.before = first ∧ schedule.memoryPrice first + p.gas = schedule.memoryPrice p.after ∧
        Reaches schedule p.after payments last

theorem Reaches.append (h : Reaches schedule first payments middle)
    (next : Reaches schedule middle more last) : Reaches schedule first (payments ++ more) last := by
  induction payments generalizing first with
  | nil =>
      obtain rfl := h
      exact next
  | cons p payments ih =>
      obtain ⟨before, price, rest⟩ := h
      exact ⟨before, price, ih rest⟩

/-- However many payments there are, together they are the difference of two prices. -/
theorem Reaches.total_eq (h : Reaches schedule first payments last) :
    schedule.memoryPrice first + total payments = schedule.memoryPrice last := by
  induction payments generalizing first with
  | nil =>
      obtain rfl := h
      rfl
  | cons p payments ih =>
      obtain ⟨-, price, rest⟩ := h
      have later := ih rest
      simp only [total, List.map_cons, List.sum_cons] at later ⊢
      omega

end Payment

theorem Gas.ofLength_max (a b : Nat) : Gas.ofLength (max a b) = max (Gas.ofLength a) (Gas.ofLength b) := by
  apply UInt64.toNat_inj.mp
  rw [Gas.toNat_max, Gas.toNat_ofLength, Gas.toNat_ofLength, Gas.toNat_ofLength]
  omega

/-- A charge takes the difference between the prices of the memory after it and before it. -/
theorem Frame.memoryPrice_add (f : Frame) (offset length : Word) (gas : GasSchedule) :
    gas.memoryPrice f.memory.size + (f.memoryPrice offset length gas).toNat =
      gas.memoryPrice (f.grown offset length gas).memory.size := by
  by_cases empty : length = 0
  · simp [Frame.memoryPrice, Frame.grown, Frame.chargedSpan, empty, Memory.extend]
  · have some : length.toNat ≠ 0 := fun zero => empty (BitVec.toNat_inj.mp zero)
    have words : (f.grown offset length gas).memory.size / 32 =
        max (f.memory.size / 32) ((offset.toNat + length.toNat + 31) / 32) := by
      simp only [Frame.grown, Frame.chargedSpan, if_neg empty]
      exact f.memory.words_extend offset.toNat some
    rw [GasSchedule.memoryPrice, GasSchedule.memoryPrice, words, Gas.ofLength_max,
      ← Gas.memoryCost_add_expansion, Frame.memoryPrice, if_neg empty]
    rfl

namespace Exec

variable {α β : Type} {schedule : GasSchedule} {x : Exec α} {f : α → Exec β} {s s' : Focus}

/-- What an action, run from a state, pays for memory, charge by charge. -/
inductive Billed (schedule : GasSchedule) : {α : Type} → Exec α → Focus → List Payment → Prop
  | charge (offset length : Word) (s : Focus) :
      Billed schedule (chargeMemory schedule offset length) s
        [{ before := s.frame.memory.size
           after := (endState (chargeMemory schedule offset length) s).frame.memory.size
           gas := s.frame.gas.toNat -
            (endState (chargeMemory schedule offset length) s).frame.gas.toNat }]
  | spend (amount : UInt64) (s : Focus) : Billed schedule (spend amount) s []
  | idle {α : Type} {x : Exec α} {s : Focus} (gas : (endState x s).frame.gas = s.frame.gas)
      (size : (endState x s).frame.memory.size = s.frame.memory.size) : Billed schedule x s []
  | next {α β : Type} {x : Exec α} {f : α → Exec β} {a : α} {s s' : Focus}
      {payments more : List Payment} (run : x s = .ok a s') (first : Billed schedule x s payments)
      (rest : Billed schedule (f a) s' more) : Billed schedule (x >>= f) s (payments ++ more)
  | stop {α β : Type} {x : Exec α} {f : α → Exec β} {e : EngineError} {s s' : Focus}
      {payments : List Payment} (run : x s = .error e s') (first : Billed schedule x s payments) :
      Billed schedule (x >>= f) s payments

/-- Spending that succeeds takes the amount and leaves memory alone; spending that fails does
nothing. -/
theorem endState_spend (amount : UInt64) (s : Focus) :
    (endState (spend amount) s).frame.memory = s.frame.memory ∧
      (endState (spend amount) s).frame.gas ≤ s.frame.gas := by
  cases paid : s.frame.spend amount with
  | error cause =>
      have run : spend amount s = .error (.fault cause) s := by simp only [spend, onFrame, paid]
      rw [endState_error run]
      exact ⟨rfl, UInt64.le_refl _⟩
  | ok g =>
      have run : spend amount s = .ok () { s with frame := g } := by
        simp only [spend, onFrame, paid]
      obtain ⟨covered, rfl⟩ := Frame.spend_eq_ok.mp paid
      rw [endState_ok run]
      exact ⟨rfl, UInt64.sub_le covered⟩

/-- A charge that succeeds takes its price and makes memory grow; one that fails does nothing. -/
theorem endState_chargeMemory (schedule : GasSchedule) (offset length : Word) (s : Focus) :
    endState (chargeMemory schedule offset length) s = s ∨
      s.frame.memoryPrice offset length schedule ≤ s.frame.gas ∧
        (endState (chargeMemory schedule offset length) s).frame =
          s.frame.grown offset length schedule := by
  cases paid : s.frame.chargeMemory offset length schedule with
  | error cause =>
      have run : chargeMemory schedule offset length s = .error (.fault cause) s := by
        simp only [chargeMemory, ofFrame, paid]
      exact .inl (endState_error run)
  | ok r =>
      have run : chargeMemory schedule offset length s = .ok r.1 { s with frame := r.2 } := by
        simp only [chargeMemory, ofFrame, paid]
      obtain ⟨covered, -, grown⟩ := Frame.chargeMemory_ok paid
      rw [endState_ok run]
      exact .inr ⟨covered, grown⟩

open Payment in
/-- The payments lead from the size of memory before the action to the one after it, and all of them
were taken from the gas of the frame. -/
theorem Billed.reaches {payments : List Payment} (h : Billed schedule x s payments) :
    Reaches schedule s.frame.memory.size payments (endState x s).frame.memory.size ∧
      (endState x s).frame.gas.toNat + total payments ≤ s.frame.gas.toNat := by
  induction h with
  | charge offset length s =>
      obtain same | ⟨covered, grown⟩ := endState_chargeMemory schedule offset length s
      · rw [same]
        exact ⟨⟨rfl, by simp, rfl⟩, by simp [total]⟩
      · have price := s.frame.memoryPrice_add offset length schedule
        have enough := UInt64.le_iff_toNat_le.mp covered
        have taken : (s.frame.grown offset length schedule).gas.toNat =
            s.frame.gas.toNat - (s.frame.memoryPrice offset length schedule).toNat :=
          UInt64.toNat_sub_of_le _ _ covered
        rw [grown]
        refine ⟨⟨rfl, ?_, rfl⟩, ?_⟩
        · show _ + (s.frame.gas.toNat - _) = schedule.memoryPrice (s.frame.grown ..).memory.size
          omega
        · simp only [total, List.map_cons, List.map_nil, List.sum_cons, List.sum_nil]
          omega
  | spend amount s =>
      obtain ⟨memory, less⟩ := endState_spend amount s
      exact ⟨congrArg Memory.size memory, UInt64.le_iff_toNat_le.mp less⟩
  | idle gas size => exact ⟨size, Nat.le_of_eq (congrArg UInt64.toNat gas)⟩
  | @next _ _ x f a s s' _ _ run _ _ first rest =>
      have same : endState (x >>= f) s = endState (f a) s' := by
        simp only [endState, bind_of_ok run]
      rw [endState_ok run] at first
      rw [same, total_append]
      exact ⟨first.1.append rest.1, by omega⟩
  | stop run _ first =>
      rw [endState_error run] at first
      rw [endState_error (bind_of_error run)]
      exact first

/-- An action that pays nothing for memory, from whatever state it is run. -/
def Plain (schedule : GasSchedule) (x : Exec α) : Prop :=
  ∀ s, Billed schedule x s []

/-- An action, run from a state, that pays for memory by charges alone, and what is known of the
payments, the answer and the state after it where it succeeds. -/
def Settles (schedule : GasSchedule) (x : Exec α) (s : Focus)
    (post : List Payment → α → Focus → Prop) : Prop :=
  ∃ payments, Billed schedule x s payments ∧ ∀ a s', x s = .ok a s' → post payments a s'

/-- An action that pays for memory by charges alone, from whatever state it is run. -/
def Bills (schedule : GasSchedule) (x : Exec α) : Prop :=
  ∀ s, Settles schedule x s fun _ _ _ => True

section
variable {post mid : List Payment → α → Focus → Prop} {last : List Payment → β → Focus → Prop}

theorem plain_bind (first : Plain schedule x) (next : ∀ a, Plain schedule (f a)) :
    Plain schedule (x >>= f) := by
  intro s
  cases run : x s with
  | error e t => exact .stop run (first s)
  | ok a t => exact .next run (first s) (next a t)

theorem plain_when {c : Prop} [Decidable c] {y : Exec α} {rest : Exec β}
    (sometimes : Plain schedule y) (always : Plain schedule rest) :
    Plain schedule (if c then y >>= fun _ => rest else rest) := by
  split
  · exact plain_bind sometimes fun _ => always
  · exact always

/-- An action that leaves its state as it is. -/
theorem plain_of_reads (reads : ∀ s, endState x s = s) : Plain schedule x :=
  fun s => .idle (by rw [reads s]) (by rw [reads s])

theorem plain_pure (a : α) : Plain schedule (pure a : Exec α) :=
  plain_of_reads fun _ => rfl

theorem plain_fail (cause : Fault) : Plain schedule (fail cause : Exec α) :=
  plain_of_reads fun _ => rfl

theorem plain_frame : Plain schedule frame :=
  plain_of_reads fun _ => rfl

theorem plain_ledger : Plain schedule ledger :=
  plain_of_reads fun _ => rfl

theorem plain_load (key : Word) : Plain schedule (load key) :=
  plain_of_reads fun _ => rfl

theorem plain_requireMutable : Plain schedule requireMutable := by
  refine plain_of_reads fun s => ?_
  simp only [endState, requireMutable]
  cases s.frame.requireMutable <;> rfl

theorem plain_ofStack (g : Stack → Except Fault (α × Stack)) : Plain schedule (ofStack g) := by
  intro s
  refine .idle ?_ ?_ <;> simp only [endState, ofStack] <;> cases g s.frame.stack <;> rfl

theorem plain_onStack (g : Stack → Except Fault Stack) : Plain schedule (onStack g) := by
  intro s
  refine .idle ?_ ?_ <;> simp only [endState, onStack] <;> cases g s.frame.stack <;> rfl

theorem plain_pushWord (w : Word) : Plain schedule (pushWord w) :=
  plain_onStack _

theorem plain_onLedger (g : Ledger → Except StateError Ledger) : Plain schedule (onLedger g) := by
  intro s
  refine .idle ?_ ?_ <;> simp only [endState, onLedger] <;> cases g s.ledger <;> rfl

theorem plain_modifyLedger (g : Ledger → Ledger) : Plain schedule (modifyLedger g) :=
  fun _ => .idle rfl rfl

theorem plain_modifyFrame {g : Frame → Frame} (gas : ∀ f, (g f).gas = f.gas)
    (memory : ∀ f, (g f).memory = f.memory) : Plain schedule (modifyFrame g) :=
  fun s => .idle (gas s.frame) (congrArg Memory.size (memory s.frame))

theorem plain_halted (halt : Halt) : Plain schedule (modifyFrame (·.halted halt)) := by
  refine plain_modifyFrame (fun f => ?_) fun f => ?_ <;> simp only [Frame.halted] <;> split <;> rfl

theorem plain_jump (destination : Word) : Plain schedule (onFrame (·.jump destination)) := by
  intro s
  refine .idle ?_ ?_ <;> simp only [endState, onFrame, Frame.jump] <;>
    cases s.frame.jumpDests.contains destination.clamp.toNat <;> rfl

theorem plain_spend (amount : UInt64) : Plain schedule (spend amount) :=
  .spend amount

theorem Settles.mono {post' : List Payment → α → Focus → Prop} (h : Settles schedule x s post)
    (weaker : ∀ payments a t, post payments a t → post' payments a t) :
    Settles schedule x s post' := by
  obtain ⟨payments, billed, holds⟩ := h
  exact ⟨payments, billed, fun a t run => weaker _ _ _ (holds a t run)⟩

theorem Settles.bind (first : Settles schedule x s mid)
    (next : ∀ payments a t, mid payments a t →
      Settles schedule (f a) t fun more => last (payments ++ more)) :
    Settles schedule (x >>= f) s last := by
  obtain ⟨payments, billed, holds⟩ := first
  cases run : x s with
  | error e t =>
      refine ⟨payments, .stop run billed, fun b u ran => ?_⟩
      cases (bind_of_error run).symm.trans ran
  | ok a t =>
      obtain ⟨more, billed', holds'⟩ := next payments a t (holds a t run)
      exact ⟨payments ++ more, .next run billed billed', fun b u ran =>
        holds' b u ((bind_of_ok run).symm.trans ran)⟩

theorem Plain.settles (h : Plain schedule x) (s : Focus) :
    Settles schedule x s fun payments a t => payments = [] ∧ x s = .ok a t :=
  ⟨[], h s, fun _ _ run => ⟨rfl, run⟩⟩

/-- An action that pays nothing, before others. -/
theorem Plain.before (h : Plain schedule x)
    (next : ∀ a t, x s = .ok a t → Settles schedule (f a) t last) :
    Settles schedule (x >>= f) s last := by
  refine (h.settles s).bind ?_
  rintro payments a t ⟨rfl, run⟩
  exact next a t run

/-- What is paid for memory has been taken from the gas of the frame. -/
theorem Settles.paid (h : Settles schedule x s post) :
    Settles schedule x s fun payments a t =>
      x s = .ok a t ∧ t.frame.gas.toNat + Payment.total payments ≤ s.frame.gas.toNat := by
  obtain ⟨payments, billed, -⟩ := h
  refine ⟨payments, billed, fun a t run => ⟨run, ?_⟩⟩
  have taken := billed.reaches.2
  rwa [endState_ok run] at taken

/-- An action that pays nothing for memory, before others, may spend gas. -/
theorem Plain.spends (h : Plain schedule x)
    (next : ∀ a t, t.frame.gas.toNat ≤ s.frame.gas.toNat → Settles schedule (f a) t last) :
    Settles schedule (x >>= f) s last :=
  h.before fun a t run => next a t (endState_ok run ▸ (h s).reaches.2)

/-- An action that pays nothing for memory and is only run on a condition. -/
theorem Plain.maybe {c : Prop} [Decidable c] {y : Exec α} {rest : Exec β} (h : Plain schedule y)
    (next : ∀ t, t.frame.gas.toNat ≤ s.frame.gas.toNat → Settles schedule rest t last) :
    Settles schedule (if c then y >>= fun _ => rest else rest) s last := by
  split
  · exact h.spends fun _ t less => next t less
  · exact next s (Nat.le_refl _)

theorem settles_spend (amount : UInt64) (s : Focus) :
    Settles schedule (spend amount) s fun payments _ t =>
      t.frame.gas.toNat + Payment.total payments + amount.toNat = s.frame.gas.toNat ∧
        t.frame.memory = s.frame.memory := by
  refine ((plain_spend amount).settles s).mono ?_
  rintro payments _ t ⟨rfl, run⟩
  obtain ⟨pays, memory, -⟩ := spend_ok run
  exact ⟨pays.gas, memory⟩

/-- After a charge memory covers the span. -/
theorem settles_chargeMemory (offset length : Word) (s : Focus) :
    Settles schedule (chargeMemory schedule offset length) s fun payments span t =>
      t.frame.gas.toNat + Payment.total payments = s.frame.gas.toNat ∧
        span = Frame.chargedSpan offset length ∧ t.frame.memory.Covers span.1 span.2 := by
  refine ⟨_, .charge offset length s, fun span t run => ?_⟩
  obtain ⟨pays, rfl, grown⟩ := chargeMemory_ok run
  have paid := pays.gas
  refine ⟨?_, rfl, ?_⟩
  · rw [endState_ok run]
    simp only [Payment.total, List.map_cons, List.map_nil, List.sum_cons, List.sum_nil]
    omega
  · rw [grown]
    exact Memory.covers_extend _ _ _

theorem Plain.bills (h : Plain schedule x) : Bills schedule x :=
  fun s => ⟨[], h s, fun _ _ _ => trivial⟩

theorem Settles.anyway (h : Settles schedule x s post) :
    Settles schedule x s fun _ _ _ => True :=
  h.mono fun _ _ _ _ => trivial

theorem bills_bind (first : Bills schedule x) (next : ∀ a, Bills schedule (f a)) :
    Bills schedule (x >>= f) :=
  fun s => (first s).bind fun _ a t _ => next a t

theorem bills_when {c : Prop} [Decidable c] {y : Exec α} {rest : Exec β}
    (sometimes : Bills schedule y) (always : Bills schedule rest) :
    Bills schedule (if c then y >>= fun _ => rest else rest) := by
  split
  · exact bills_bind sometimes fun _ => always
  · exact always

theorem bills_chargeMemory (offset length : Word) :
    Bills schedule (chargeMemory schedule offset length) :=
  fun s => (settles_chargeMemory offset length s).anyway

end
end Exec
end EvmEngine
