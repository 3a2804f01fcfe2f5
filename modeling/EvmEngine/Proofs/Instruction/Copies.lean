import EvmEngine.Proofs.Bytes
import EvmEngine.Proofs.Exec.StackSafety
import EvmEngine.Proofs.Instruction.Requests
import EvmEngine.Proofs.Memory.Bytes

/-!
What the instructions that copy data read and where they put it. A source goes on with zeros for
ever, and its bytes are counted from the exact offset, although the instructions clamp it to a
machine integer. The output of the last child is the exception: a copy from it stays within it or
fails, whatever it costs and however short it is.
-/

namespace EvmEngine

open Bytes Effects Exec

/-- The bytes of a span of memory are those of a source from an offset on, and no others change. -/
structure Memory.Copied (m : Memory) (destination size : Nat) (source : Nat → UInt8) (offset : Nat)
    (m' : Memory) : Prop where
  inside : ∀ i < size, m'.byteAt (destination + i) = source (offset + i)
  outside : ∀ address, address < destination ∨ destination + size ≤ address →
    m'.byteAt address = m.byteAt address

/-- The byte strings that can be copied from are shorter than the largest machine integer, as all
that is held in the memory of a machine is. -/
structure Focus.Counted (s : Focus) : Prop where
  data : s.frame.env.data.size + 1 < UInt64.size
  code : s.frame.code.size + 1 < UInt64.size
  returnData : s.frame.returnData.size + 1 < UInt64.size
  accounts : ∀ a, (s.ledger.code a).size + 1 < UInt64.size

/-- A copy has been paid for: memory has grown to cover the span that it goes to, and nothing that
it can copy from has changed. -/
structure Focus.PaidForCopy (s : Focus) (destination size : Word) (span : Nat × Nat) (t : Focus) :
    Prop where
  pays : ∃ price, s.Pays price t
  charged : span = Frame.chargedSpan destination size
  memory : t.frame.memory = s.frame.memory.extend span.1 span.2

namespace Instruction

variable {destination size : Word} {s t : Focus} {span : Nat × Nat} {bytes : ByteArray}

theorem spend_ensures (amount : UInt64) (s : Focus) :
    Ensures (spend amount) s (fun _ t => s.Pays amount.toNat t ∧ t.frame.memory = s.frame.memory)
      (fun e _ => e = .fault .outOfGas) where
  ok ran := ⟨(spend_ok ran).1, (spend_ok ran).2.1⟩
  error ran := by
    simp only [spend, onFrame] at ran
    split at ran
    · cases ran
    · next failed =>
        cases ran
        rw [Frame.spend_error failed]

theorem chargeMemory_ensures (gas : GasSchedule) (destination size : Word) (s : Focus) :
    Ensures (chargeMemory gas destination size) s
      (fun span t => s.PaidForCopy destination size span t)
      (fun e _ => e = .fault .outOfGas) where
  ok ran := by
    obtain ⟨pays, rfl, grown⟩ := chargeMemory_ok ran
    exact ⟨⟨_, pays⟩, rfl, congrArg Frame.memory grown⟩
  error ran := by
    simp only [chargeMemory, ofFrame] at ran
    split at ran
    · cases ran
    · next failed =>
        cases ran
        rw [Frame.chargeMemory_error failed]

theorem chargeCopy_ensures (gas : GasSchedule) (destination size : Word) (s : Focus) :
    Ensures (chargeCopy gas destination size) s
      (fun span t => s.PaidForCopy destination size span t)
      (fun e _ => e = .fault .outOfGas) := by
  refine (chargeMemory_ensures gas destination size s).bind fun span t paid => ?_
  refine (spend_ensures _ t).bind fun _ u spent => .of_ok rfl ?_
  obtain ⟨price, before⟩ := paid.pays
  exact ⟨⟨_, before.trans spent.1⟩, paid.charged, spent.2.trans paid.memory⟩

/-- What is written is the window at the exact offset, whatever the offset is clamped to. -/
theorem copyWindow_ensures (paid : s.PaidForCopy destination size span t)
    (paged : s.frame.memory.Paged) (counted : bytes.size < UInt64.size) (source : Word) :
    Ensures (copyWindow span.1 bytes source span.2) t
      (fun _ u => s.frame.memory.Copied destination.toNat size.toNat (extended bytes) source.toNat
        u.frame.memory)
      (fun e _ => e = .fault .outOfGas) := by
  obtain rfl := paid.charged
  have grown := paid.memory
  simp only [copyWindow, Frame.chargedSpan] at grown ⊢
  by_cases empty : size = 0
  -- Nothing is written, and every address lies outside the span, wherever it is.
  · simp only [if_pos empty] at grown ⊢
    refine .of_ok rfl ⟨fun i below => ?_, fun address _ => ?_⟩
    · rw [empty] at below
      exact absurd below (Nat.not_lt_zero i)
    · rw [grown, Memory.byteAt_extend]
  · have positive : size.toNat ≠ 0 := fun zero => empty (BitVec.eq_of_toNat_eq zero)
    simp only [if_neg empty, if_neg positive] at grown ⊢
    have whole : t.frame.memory.Paged := grown ▸ paged.extend _ _
    refine .of_ok rfl ⟨fun i below => ?_, fun address outside => ?_⟩
    · have held : i < (window bytes source.clamp.toNat size.toNat).size := by rwa [size_window]
      refine (Memory.byteAt_write_of_inside whole held).trans ?_
      exact (extended_window bytes below).trans (Word.extended_clamp counted source i)
    · refine (Memory.byteAt_write_of_outside ?_).trans ?_
      · rwa [size_window]
      · rw [grown, Memory.byteAt_extend]

end Instruction

namespace Opcode

open Instruction

variable (host : Host) {s : Focus} {rest : List Word}

theorem copy_ensures (paged : s.frame.memory.Paged) (counted : s.Counted) (which : CopySource)
    {destination source size : Word}
    (operands : s.frame.stack.words = destination :: source :: size :: rest) :
    Ensures ((copy which).perform host) s
      (fun _ t => s.frame.memory.Copied destination.toNat size.toNat
        (extended (CopySource.bytes s.frame which)) source.toNat t.frame.memory)
      (fun e _ => e = .fault .outOfGas) := by
  have taken : s.frame.stack.pop3 = .ok ((destination, source, size), ⟨rest⟩) := by
    simp only [Stack.pop3, operands]
  refine Ensures.bind ?_ fun _ _ copied => .of_ok rfl copied
  refine .after (ofStack_of_ok taken) ?_
  refine (chargeCopy_ensures _ _ _ _).bind fun span t paid => ?_
  refine .after rfl ?_
  obtain ⟨price, pays⟩ := paid.pays
  have same : CopySource.bytes t.frame which = CopySource.bytes s.frame which := by
    rw [pays.frame]
    cases which <;> rfl
  have short : (CopySource.bytes s.frame which).size < UInt64.size := by
    cases which with
    | callData => exact Nat.lt_of_succ_lt counted.data
    | code => exact Nat.lt_of_succ_lt counted.code
  have copied := copyWindow_ensures paid paged short source
  rw [same]
  exact copied

theorem extCodeCopy_ensures (paged : s.frame.memory.Paged) (counted : s.Counted)
    {account destination source size : Word}
    (operands : s.frame.stack.words = account :: destination :: source :: size :: rest) :
    Ensures (extCodeCopy.perform host) s
      (fun _ t => s.frame.memory.Copied destination.toNat size.toNat
        (extended (s.ledger.code account.toAddress)) source.toNat t.frame.memory)
      (fun e _ => e = .fault .outOfGas) := by
  have taken : s.frame.stack.pop4 = .ok ((account, destination, source, size), ⟨rest⟩) := by
    simp only [Stack.pop4, operands]
  refine Ensures.bind ?_ fun _ _ copied => .of_ok rfl copied
  refine .after (ofStack_of_ok taken) ?_
  refine (chargeCopy_ensures _ _ _ _).bind fun span t paid => ?_
  refine .after rfl ?_
  obtain ⟨price, pays⟩ := paid.pays
  have copied := copyWindow_ensures paid paged
    (Nat.lt_of_succ_lt (counted.accounts account.toAddress)) source
  rw [pays.ledger]
  exact copied

/-- The bound on the clamped numbers is the bound on the exact ones. -/
theorem bound_clamp {available : Nat} (counted : available + 1 < UInt64.size)
    (source size : Word) :
    available < source.clamp.toNat + size.clamp.toNat ↔ available < source.toNat + size.toNat := by
  rw [Word.toNat_clamp, Word.toNat_clamp]
  omega

/-- A copy from the output of the last child, where it stays within the bound, is one like the
others; where it does not, it fails at once. -/
theorem returnDataCopy_ensures (paged : s.frame.memory.Paged) (counted : s.Counted)
    {destination source size : Word}
    (operands : s.frame.stack.words = destination :: source :: size :: rest) :
    Ensures (returnDataCopy.perform host) s
      (fun _ t => source.toNat + size.toNat ≤ s.frame.returnData.size ∧
        s.frame.memory.Copied destination.toNat size.toNat (extended s.frame.returnData)
          source.toNat t.frame.memory)
      (fun e _ =>
        if source.toNat + size.toNat ≤ s.frame.returnData.size then e = .fault .outOfGas
        else e = .fault
          (.returnDataOutOfBounds source.clamp size.clamp s.frame.returnData.size)) := by
  have taken : s.frame.stack.pop3 = .ok ((destination, source, size), ⟨rest⟩) := by
    simp only [Stack.pop3, operands]
  refine Ensures.bind ?_ fun _ _ copied => .of_ok rfl copied
  refine .after (ofStack_of_ok taken) ?_
  refine .after rfl ?_
  simp only [bound_clamp counted.returnData]
  by_cases within : source.toNat + size.toNat ≤ s.frame.returnData.size
  · rw [if_neg (Nat.not_lt.mpr within)]
    simp only [if_pos within]
    refine (chargeCopy_ensures _ _ _ _).bind fun span t paid => ?_
    refine (copyWindow_ensures paid paged (Nat.lt_of_succ_lt counted.returnData) source).mono
      (fun _ _ copied => ⟨within, copied⟩) fun _ _ short => short
  · rw [if_pos (Nat.not_le.mp within)]
    simp only [if_neg within]
    exact .of_error rfl rfl

/-- With room for a word on the stack, loading a word of the call data cannot fail. -/
theorem callDataLoad_runs (counted : s.Counted) {offset : Word}
    (operands : s.frame.stack.words = offset :: rest) (room : rest.length < Stack.capacity) :
    ∃ word : Word,
      callDataLoad.perform host s =
        .ok .next { s with frame := { s.frame with stack := ⟨word :: rest⟩ } } ∧
      word.toNat = numeral (extended s.frame.env.data) offset.toNat 32 := by
  have taken : s.frame.stack.pop = .ok (offset, ⟨rest⟩) := by
    simp only [Stack.pop, operands]
  refine ⟨Word.ofBytes (window s.frame.env.data offset.clamp.toNat 32), ?_, ?_⟩
  · have pushed (word : Word) : Stack.push ⟨rest⟩ word = .ok ⟨word :: rest⟩ :=
      Stack.push_of_room room
    refine (bind_of_ok (a := ()) ?_).trans rfl
    refine (bind_of_ok (ofStack_of_ok taken)).trans ?_
    refine (bind_of_ok rfl).trans ?_
    simp only [pushWord, onStack, pushed]
  · rw [Word.toNat_ofBytes_window _ _ (Nat.le_refl 32)]
    exact numeral_congr fun i _ => Word.extended_clamp (Nat.lt_of_succ_lt counted.data) offset i

/-- The instructions that copy data read it where their operands say, as whole numbers. Call data,
the code and the code of other accounts go on with zeros: after a copy a byte of the span is the one
at its place in the source, and no byte beside the span has changed; a word of the call data is the
number that 32 bytes from the offset on spell. The output of the last child ends where it ends: a
copy fails for that where its span, even an empty one, ends beyond, and only there; one that
succeeds has all of its bytes. -/
theorem copies_are_exact (host : Host) {s : Focus} (paged : s.frame.memory.Paged)
    (counted : s.Counted) :
    (∀ which destination source size rest control t,
      s.frame.stack.words = destination :: source :: size :: rest →
      (copy which).perform host s = .ok control t →
      s.frame.memory.Copied destination.toNat size.toNat
        (extended (CopySource.bytes s.frame which)) source.toNat t.frame.memory) ∧
    (∀ account destination source size rest control t,
      s.frame.stack.words = account :: destination :: source :: size :: rest →
      extCodeCopy.perform host s = .ok control t →
      s.frame.memory.Copied destination.toNat size.toNat
        (extended (s.ledger.code account.toAddress)) source.toNat t.frame.memory) ∧
    (∀ offset rest, s.frame.stack.words = offset :: rest → rest.length < Stack.capacity →
      ∃ word : Word,
        callDataLoad.perform host s =
          .ok .next { s with frame := { s.frame with stack := ⟨word :: rest⟩ } } ∧
        word.toNat = numeral (extended s.frame.env.data) offset.toNat 32) ∧
    ∀ destination source size rest,
      s.frame.stack.words = destination :: source :: size :: rest →
      ((∃ offset length available, answer (returnDataCopy.perform host) s =
          .error (.fault (.returnDataOutOfBounds offset length available))) ↔
        s.frame.returnData.size < source.toNat + size.toNat) ∧
      ∀ control t, returnDataCopy.perform host s = .ok control t →
        source.toNat + size.toNat ≤ s.frame.returnData.size ∧
          s.frame.memory.Copied destination.toNat size.toNat (extended s.frame.returnData)
            source.toNat t.frame.memory := by
  refine ⟨fun which _ _ _ _ _ _ operands => (copy_ensures host paged counted which operands).ok,
    fun _ _ _ _ _ _ _ operands => (extCodeCopy_ensures host paged counted operands).ok,
    fun _ _ => callDataLoad_runs host counted, fun destination source size rest operands => ?_⟩
  have ends := returnDataCopy_ensures host paged counted operands
  refine ⟨?_, fun control t => ends.ok⟩
  cases ran : returnDataCopy.perform host s with
  | ok control t =>
      simp only [answer, ran, reduceCtorEq, exists_false, false_iff, Nat.not_lt]
      exact (ends.ok ran).1
  | error e t =>
      have cause := ends.error ran
      split at cause
      · next within => simp [answer, ran, cause, within]
      · next beyond => simp [answer, ran, cause, Nat.not_le.mp beyond]

/-- Operands with which a copy of the call data goes on past its end, one of the output fails, and a
word of the call data has its last bytes missing. -/
theorem copies_are_exact_past_the_end :
    let host := Host.ofRules (.ofFork .istanbul) fun _ => none
    let env : Environment :=
      ⟨.message .call, 1, 1, 2, 2, 0, ⟨#[1, 2, 3, 4, 5, 6, 7]⟩, 0, Block.genesis, 0, false⟩
    let f := Frame.start env (.span 0 0) ByteArray.empty 100
    let s : Focus :=
      ⟨{ f with stack := ⟨[1, 5, 4]⟩, returnData := ⟨#[1, 2, 3, 4, 5, 6, 7, 8]⟩ }, .ofWorld .empty⟩
    s.frame.memory.Paged ∧ s.Counted ∧
      (∃ t, (copy .callData).perform host s = .ok .next t ∧
        (List.range 4).map (fun i => t.frame.memory.byteAt (1 + i)) = [6, 7, 0, 0]) ∧
      (∃ word t, callDataLoad.perform host s = .ok .next t ∧
        t.frame.stack.words = [word, 5, 4] ∧ word.toNat = 0x020304050607 * 256 ^ 26) ∧
      ∃ offset length available, answer (returnDataCopy.perform host) s =
        .error (.fault (.returnDataOutOfBounds offset length available)) := by
  intro host env f s
  have paged : s.frame.memory.Paged := Memory.paged_empty
  have counted : s.Counted := ⟨by decide, by decide, by decide, fun a => by
    have none : s.ledger.code a = ByteArray.empty := rfl
    rw [none]
    decide⟩
  obtain ⟨copies, -, loads, bounded⟩ := copies_are_exact host paged counted
  obtain ⟨t, ran⟩ : ∃ t, (copy .callData).perform host s = .ok .next t :=
    answer_eq_ok.mp (by decide +kernel)
  have copied : s.frame.memory.Copied 1 4 (extended env.data) 5 t.frame.memory :=
    copies .callData 1 5 4 [] .next t rfl ran
  obtain ⟨word, loaded, spells⟩ := loads 1 [5, 4] rfl (by decide)
  refine ⟨paged, counted, ⟨t, ran, ?_⟩, ⟨word, _, loaded, rfl, ?_⟩, ?_⟩
  · rw [List.map_congr_left fun i member => copied.inside i (List.mem_range.mp member)]
    decide
  · rw [spells]
    decide +kernel
  · exact (bounded 1 5 4 [] rfl).1.mpr (by decide)

end Opcode
end EvmEngine
