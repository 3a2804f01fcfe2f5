import EvmEngine.Frame
import EvmEngine.Proofs.Memory.Bytes

/-!
Work inside a frame, which only spends gas. Growing memory is described by its price and by the
frame that has paid it, so that what follows need not look at how the charge is made.
-/

namespace EvmEngine

/-- Work inside a frame: the counter, the stack, the memory, the output and the way it ends may
change, and gas may be spent. -/
structure Frame.Works (f f' : Frame) : Prop where
  env : f'.env = f.env
  target : f'.target = f.target
  code : f'.code = f.code
  gasLimit : f'.gasLimit = f.gasLimit
  gas : f'.gas ≤ f.gas
  returnData : f'.returnData = f.returnData
  refund : f'.refund = f.refund
  logs : f'.logs = f.logs
  destroyed : f'.destroyed = f.destroyed
  memory : f.memory.Paged → f'.memory.Paged

namespace Frame

theorem works_stack (f : Frame) (stack : Stack) : f.Works { f with stack } :=
  ⟨rfl, rfl, rfl, rfl, UInt64.le_refl _, rfl, rfl, rfl, rfl, id⟩

theorem works_write (f : Frame) (offset : Nat) (data : ByteArray) :
    f.Works { f with memory := f.memory.write offset data } :=
  ⟨rfl, rfl, rfl, rfl, UInt64.le_refl _, rfl, rfl, rfl, rfl, fun paged => paged.write offset data⟩

theorem works_output (f : Frame) (output : ByteArray) : f.Works { f with output } :=
  ⟨rfl, rfl, rfl, rfl, UInt64.le_refl _, rfl, rfl, rfl, rfl, id⟩

theorem works_advance (f : Frame) (n : Nat) : f.Works (f.advance n) :=
  ⟨rfl, rfl, rfl, rfl, UInt64.le_refl _, rfl, rfl, rfl, rfl, id⟩

theorem works_halted (f : Frame) (halt : Halt) : f.Works (f.halted halt) := by
  simp only [halted]
  split <;> exact ⟨rfl, rfl, rfl, rfl, UInt64.le_refl _, rfl, rfl, rfl, rfl, id⟩

theorem isRunning_halted (f : Frame) {halt : Halt} (ends : halt ≠ .running) :
    (f.halted halt).isRunning = false := by
  simp only [halted]
  split
  · simp [isRunning, ends]
  · next ended => exact Bool.eq_false_iff.mpr ended

theorem works_jump {f f' : Frame} {destination : Word} (h : f.jump destination = .ok f') :
    f.Works f' := by
  simp only [jump] at h
  split at h
  · cases h
    exact ⟨rfl, rfl, rfl, rfl, UInt64.le_refl _, rfl, rfl, rfl, rfl, id⟩
  · cases h

/-- Spending succeeds exactly where the gas covers the amount, and takes that amount away. -/
theorem spend_eq_ok {f f' : Frame} {amount : UInt64} :
    f.spend amount = .ok f' ↔ amount ≤ f.gas ∧ f' = { f with gas := f.gas - amount } := by
  simp only [spend]
  split
  · next short => simp [UInt64.not_le.mpr short]
  · next covered => simp [UInt64.not_lt.mp covered, eq_comm]

theorem works_spend {f f' : Frame} {amount : UInt64} (h : f.spend amount = .ok f') :
    f.Works f' := by
  obtain ⟨covered, rfl⟩ := spend_eq_ok.mp h
  exact ⟨rfl, rfl, rfl, rfl, UInt64.sub_le covered, rfl, rfl, rfl, rfl, id⟩

/-- What growing memory to cover a span costs, nothing where the span is empty. -/
def memoryPrice (f : Frame) (offset length : Word) (gas : GasSchedule) : UInt64 :=
  if length = 0 then 0
  else Gas.memoryExpansionCost (Gas.ofLength f.memory.words)
    (Gas.words (offset.toNat + length.toNat)) gas.memoryWord gas.memoryQuadDivisor

/-- The span that is charged for, as numbers. -/
def chargedSpan (offset length : Word) : Nat × Nat :=
  if length = 0 then (0, 0) else (offset.toNat, length.toNat)

/-- A frame that has paid for a span and grown its memory to cover it. -/
def grown (f : Frame) (offset length : Word) (gas : GasSchedule) : Frame :=
  { f with
    gas := f.gas - f.memoryPrice offset length gas
    memory := f.memory.extend (chargedSpan offset length).1 (chargedSpan offset length).2 }

theorem chargeMemory_ok {f f' : Frame} {offset length : Word} {gas : GasSchedule}
    {span : Nat × Nat} (h : f.chargeMemory offset length gas = .ok (span, f')) :
    f.memoryPrice offset length gas ≤ f.gas ∧ span = chargedSpan offset length ∧
      f' = f.grown offset length gas := by
  simp only [chargeMemory] at h
  by_cases empty : length = 0
  · simp only [if_pos empty, Except.ok.injEq, Prod.mk.injEq] at h
    obtain ⟨rfl, rfl⟩ := h
    simp [memoryPrice, chargedSpan, grown, empty, Memory.extend]
  · simp only [if_neg empty] at h
    split at h
    · cases h
    · simp only [bind, Except.bind] at h
      split at h
      · cases h
      · next paid =>
          obtain ⟨covered, rfl⟩ := spend_eq_ok.mp paid
          simp only [pure, Except.pure, Except.ok.injEq, Prod.mk.injEq] at h
          obtain ⟨rfl, rfl⟩ := h
          simp only [memoryPrice, chargedSpan, grown, if_neg empty]
          exact ⟨covered, trivial, trivial⟩

theorem works_chargeMemory {f f' : Frame} {offset length : Word} {gas : GasSchedule}
    {span : Nat × Nat} (h : f.chargeMemory offset length gas = .ok (span, f')) : f.Works f' := by
  obtain ⟨covered, -, rfl⟩ := chargeMemory_ok h
  exact ⟨rfl, rfl, rfl, rfl, UInt64.sub_le covered, rfl, rfl, rfl, rfl,
    fun paged => paged.extend _ _⟩

end Frame

end EvmEngine
