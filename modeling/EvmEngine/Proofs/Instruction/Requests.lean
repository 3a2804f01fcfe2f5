import EvmEngine.Proofs.Instruction.Arity

/-!
What a call or a creation asks for and what it has paid by then. A frame that asks has only paid,
taken words from its stack and grown its memory; it is still running, and the ledger is as it was.
The memory that a call wants its output in is there by then, and a call that moves value to another
account comes from a frame that may change the state.
-/

namespace EvmEngine

open Effects

namespace Focus

/-- A price is paid out of the gas of the frame, and nothing else but its counter, its stack and its
memory may change. -/
structure Pays (price : Nat) (s s' : Focus) : Prop where
  ledger : s'.ledger = s.ledger
  frame : s'.frame = { s.frame with
    pc := s'.frame.pc, stack := s'.frame.stack, gas := s'.frame.gas, memory := s'.frame.memory }
  gas : s'.frame.gas.toNat + price = s.frame.gas.toNat

namespace Pays

theorem trans {p q : Nat} {s t u : Focus} (first : Pays p s t) (second : Pays q t u) :
    Pays (p + q) s u := by
  refine ⟨second.ledger.trans first.ledger, ?_, ?_⟩
  · rw [second.frame, first.frame]
  · have := first.gas
    have := second.gas
    omega

theorem env {p : Nat} {s s' : Focus} (h : Pays p s s') : s'.frame.env = s.frame.env := by
  rw [h.frame]

theorem halt {p : Nat} {s s' : Focus} (h : Pays p s s') : s'.frame.halt = s.frame.halt := by
  rw [h.frame]

theorem isRunning {p : Nat} {s s' : Focus} (h : Pays p s s') :
    s'.frame.isRunning = s.frame.isRunning := by
  rw [Frame.isRunning, h.halt, Frame.isRunning]

end Pays
end Focus

namespace Exec

variable {s s' : Focus}

theorem frame_eq_ok {f : Frame} : frame s = .ok f s' ↔ s.frame = f ∧ s = s' := by
  simp [frame]

theorem ledger_eq_ok {l : Ledger} : ledger s = .ok l s' ↔ s.ledger = l ∧ s = s' := by
  simp [ledger]

theorem requireMutable_ok {u : Unit} (h : requireMutable s = .ok u s') :
    s.frame.env.isStatic = false ∧ s = s' := by
  simp only [requireMutable, Frame.requireMutable] at h
  cases frozen : s.frame.env.isStatic with
  | true => simp [frozen] at h
  | false =>
      simp only [frozen, Bool.false_eq_true, if_false, EStateM.Result.ok.injEq] at h
      exact ⟨rfl, h.2⟩

theorem spend_ok {amount : UInt64} {u : Unit} (h : spend amount s = .ok u s') :
    s.Pays amount.toNat s' ∧ s'.frame.memory = s.frame.memory ∧
      s'.frame.stack = s.frame.stack := by
  simp only [spend, onFrame] at h
  split at h
  · next paid =>
      cases h
      obtain ⟨covered, rfl⟩ := Frame.spend_eq_ok.mp paid
      have enough := UInt64.le_iff_toNat_le.mp covered
      refine ⟨⟨rfl, rfl, ?_⟩, rfl, rfl⟩
      show (s.frame.gas - amount).toNat + amount.toNat = s.frame.gas.toNat
      rw [UInt64.toNat_sub_of_le _ _ covered]
      omega
  · cases h

theorem chargeMemory_ok {gas : GasSchedule} {offset length : Word} {span : Nat × Nat}
    (h : chargeMemory gas offset length s = .ok span s') :
    s.Pays (s.frame.memoryPrice offset length gas).toNat s' ∧
      span = Frame.chargedSpan offset length ∧ s'.frame = s.frame.grown offset length gas := by
  simp only [chargeMemory, ofFrame] at h
  split at h
  · next paid =>
      cases h
      obtain ⟨covered, rfl, rfl⟩ := Frame.chargeMemory_ok paid
      have enough := UInt64.le_iff_toNat_le.mp covered
      refine ⟨⟨rfl, rfl, ?_⟩, rfl, rfl⟩
      show (s.frame.gas - s.frame.memoryPrice offset length gas).toNat +
        (s.frame.memoryPrice offset length gas).toNat = s.frame.gas.toNat
      rw [UInt64.toNat_sub_of_le _ _ covered]
      omega
  · cases h

theorem ofStack_of_ok {α : Type} {f : Stack → Except Fault (α × Stack)} {a : α} {stack : Stack}
    (taken : f s.frame.stack = .ok (a, stack)) :
    ofStack f s = .ok a { s with frame := { s.frame with stack } } := by
  simp only [ofStack, taken]

theorem ofStack_ok {α : Type} {f : Stack → Except Fault (α × Stack)} {a : α}
    (h : ofStack f s = .ok a s') :
    ∃ stack, f s.frame.stack = .ok (a, stack) ∧
      s' = { s with frame := { s.frame with stack } } := by
  simp only [ofStack] at h
  split at h
  · next taken =>
      cases h
      exact ⟨_, taken, rfl⟩
  · cases h

end Exec

namespace Instruction

/-- The value and the other operands of a call as they stand on a stack. -/
def operandsOf (scheme : CallScheme) (words : List Word) : Word × CallOperands :=
  let word (i : Nat) : Word := words.getD i 0
  let first := if hasValueOperand scheme then 3 else 2
  (if hasValueOperand scheme then word 2 else 0,
    { gas := word 0
      callee := (word 1).toAddress
      inOffset := word first
      inSize := word (first + 1)
      outOffset := word (first + 2)
      outSize := word (first + 3) })

/-- Whether a call moves value from one account to another. -/
def transfers (scheme : CallScheme) (value : Word) : Bool :=
  hasValueOperand scheme && value ≠ 0

/-- What a call pays for memory, for its input and then for its output. -/
def callMemoryPrice (gas : GasSchedule) (f : Frame) (operands : CallOperands) : Nat :=
  (f.memoryPrice operands.inOffset operands.inSize gas).toNat
    + ((f.grown operands.inOffset operands.inSize gas).memoryPrice operands.outOffset
        operands.outSize gas).toNat

/-- The gas a call adds for the callee on top of what it forwards. -/
def stipend (gas : GasSchedule) (transfersValue : Bool) : UInt64 :=
  if transfersValue then gas.callStipend else 0

/-- What a call asks for, once the frame has paid and given away the gas it forwards. -/
def callRequest (rules : Rules) (scheme : CallScheme) (operands : CallOperands) (value : Word)
    (transfersValue : Bool) (sent : UInt64) (f : Frame) : CallRequest :=
  let parties := callParties f.env operands.callee value scheme
  let input := Frame.chargedSpan operands.inOffset operands.inSize
  let output := Frame.chargedSpan operands.outOffset operands.outSize
  { scheme
    gas := if transfersValue then Gas.satAdd sent rules.gas.callStipend else sent
    caller := parties.1
    address := parties.2.1
    codeAddress := operands.callee
    value := parties.2.2
    transfersValue
    input := f.memory.read input.1 input.2
    outOffset := output.1
    outLength := output.2
    isStatic := f.env.isStatic || scheme = .staticCall }

/-- Working out what a call forwards changes nothing. -/
theorem forwarded_ok {rules : Rules} {available sent : UInt64} {requested : Word} {s s' : Focus}
    (h : Exec.ofFrame (fun f =>
      (Gas.forwarded rules available requested).map fun gas => (gas, f)) s = .ok sent s') :
    s = s' := by
  simp only [Exec.ofFrame] at h
  cases forwarded : Gas.forwarded rules available requested with
  | error cause => simp [forwarded, Except.map] at h
  | ok amount =>
      simp only [forwarded, Except.map, EStateM.Result.ok.injEq] at h
      exact h.2

theorem requestCall_ok {host : Host} {scheme : CallScheme} {operands : CallOperands}
    {value : Word} {transfersValue : Bool} {s s' : Focus} {r : CallRequest}
    (h : requestCall host scheme operands value transfersValue s = .ok r s') :
    ∃ sent : UInt64,
      s.Pays (callMemoryPrice host.rules.gas s.frame operands
        + (callSurcharge host.rules s.ledger scheme transfersValue operands.callee).toNat
        + sent.toNat) s' ∧
      r = callRequest host.rules scheme operands value transfersValue sent s'.frame ∧
      s'.frame.memory.Covers r.outOffset r.outLength := by
  obtain ⟨input, s₁, charged₁, h⟩ := bind_eq_ok.mp h
  obtain ⟨output, s₂, charged₂, h⟩ := bind_eq_ok.mp h
  obtain ⟨l, _, read, h⟩ := bind_eq_ok.mp h
  obtain ⟨rfl, rfl⟩ := Exec.ledger_eq_ok.mp read
  obtain ⟨_, s₃, spent, h⟩ := bind_eq_ok.mp h
  obtain ⟨f, _, read, h⟩ := bind_eq_ok.mp h
  obtain ⟨rfl, rfl⟩ := Exec.frame_eq_ok.mp read
  obtain ⟨sent, s₄, chosen, h⟩ := bind_eq_ok.mp h
  obtain ⟨_, s₅, given, h⟩ := bind_eq_ok.mp h
  obtain ⟨f, _, read, h⟩ := bind_eq_ok.mp h
  obtain ⟨rfl, rfl⟩ := Exec.frame_eq_ok.mp read
  obtain ⟨rfl, rfl⟩ := pure_eq_ok.mp h
  obtain ⟨paid₁, rfl, grown₁⟩ := Exec.chargeMemory_ok charged₁
  obtain ⟨paid₂, rfl, grown₂⟩ := Exec.chargeMemory_ok charged₂
  obtain ⟨paid₃, memory₃, -⟩ := Exec.spend_ok spent
  obtain ⟨paid₄, memory₄, -⟩ := Exec.spend_ok given
  obtain rfl := forwarded_ok chosen
  refine ⟨sent, ?_, rfl, ?_⟩
  · have paid := ((paid₁.trans paid₂).trans paid₃).trans paid₄
    rw [grown₁, paid₂.ledger, paid₁.ledger] at paid
    exact paid
  · rw [memory₄, memory₃, grown₂]
    exact Memory.covers_extend _ _ _

theorem valueOperand_ok {scheme : CallScheme} {s s' : Focus} {value : Word}
    (h : valueOperand scheme s = .ok value s') :
    ∃ (stack : Stack) (taken : List Word),
      s' = { s with frame := { s.frame with stack } } ∧
      s.frame.stack.words = taken ++ stack.words ∧
      if hasValueOperand scheme then taken = [value] else taken = [] ∧ value = 0 := by
  simp only [valueOperand] at h
  split at h
  · next has =>
      obtain ⟨stack, taken, rfl⟩ := Exec.ofStack_ok h
      exact ⟨stack, [value], rfl, Stack.pop_ok taken, by rw [if_pos has]⟩
  · next hasNot =>
      obtain ⟨rfl, rfl⟩ := pure_eq_ok.mp h
      exact ⟨s.frame.stack, [], rfl, rfl, by simp [hasNot]⟩

theorem operandsOf_eq {scheme : CallScheme} {taken rest : List Word}
    {gas callee value inOffset inSize outOffset outSize : Word}
    (given : if hasValueOperand scheme then taken = [value] else taken = [] ∧ value = 0) :
    operandsOf scheme
        (gas :: callee :: (taken ++ inOffset :: inSize :: outOffset :: outSize :: rest)) =
      (value, ⟨gas, callee.toAddress, inOffset, inSize, outOffset, outSize⟩) := by
  split at given
  · next has =>
      obtain rfl := given
      simp [operandsOf, has]
  · next hasNot =>
      obtain ⟨rfl, rfl⟩ := given
      simp [operandsOf, hasNot]

/-- A call pays for its memory, its surcharges and the gas it gives away, and asks for what stood on
the stack. -/
theorem call_ok {host : Host} {scheme : CallScheme} {s s' : Focus} {r : CallRequest}
    {value : Word} {operands : CallOperands}
    (stood : operandsOf scheme s.frame.stack.words = (value, operands))
    (h : call host scheme s = .ok r s') :
    ∃ sent : UInt64,
      s.Pays (callMemoryPrice host.rules.gas s.frame operands
        + (callSurcharge host.rules s.ledger scheme (transfers scheme value)
            operands.callee).toNat
        + sent.toNat) s' ∧
      r = callRequest host.rules scheme operands value (transfers scheme value) sent s'.frame ∧
      s'.frame.memory.Covers r.outOffset r.outLength ∧
      (scheme = .call → transfers scheme value = true → s.frame.env.isStatic = false) := by
  obtain ⟨⟨gas, callee⟩, s₁, popped₁, h⟩ := bind_eq_ok.mp h
  obtain ⟨value', s₂, popped₂, h⟩ := bind_eq_ok.mp h
  obtain ⟨⟨inOffset, inSize, outOffset, outSize⟩, s₃, popped₃, h⟩ := bind_eq_ok.mp h
  obtain ⟨stack₁, top, rfl⟩ := Exec.ofStack_ok popped₁
  obtain ⟨stack₂, taken, rfl, middle, given⟩ := valueOperand_ok popped₂
  obtain ⟨stack₃, bottom, rfl⟩ := Exec.ofStack_ok popped₃
  have words := Stack.pop2_ok top
  rw [show stack₁.words = taken ++ stack₂.words from middle, Stack.pop4_ok bottom] at words
  rw [words, operandsOf_eq given] at stood
  cases stood
  have paid : requestCall host scheme ⟨gas, callee.toAddress, inOffset, inSize, outOffset, outSize⟩
      value (transfers scheme value) { s with frame := { s.frame with stack := stack₃ } } =
        .ok r s' ∧ (scheme = .call → transfers scheme value = true →
          s.frame.env.isStatic = false) := by
    dsimp only at h
    split at h
    · obtain ⟨_, _, free, h⟩ := bind_eq_ok.mp h
      obtain ⟨mutable, rfl⟩ := Exec.requireMutable_ok free
      exact ⟨h, fun _ _ => mutable⟩
    · next unneeded => exact ⟨h, fun isCall carries => absurd ⟨isCall, carries⟩ unneeded⟩
  obtain ⟨paid, mutable⟩ := paid
  obtain ⟨sent, pays, rfl, covers⟩ := requestCall_ok paid
  have popped : s.Pays 0 { s with frame := { s.frame with stack := stack₃ } } := ⟨rfl, rfl, rfl⟩
  have total := popped.trans pays
  rw [Nat.zero_add] at total
  exact ⟨sent, total, rfl, covers, mutable⟩

/-- What a creation pays for: its memory and, with a salt, the hash of the init code. -/
def createPrice (gas : GasSchedule) (salt : Option Word) (offset size : Word) (f : Frame) : Nat :=
  (f.memoryPrice offset size gas).toNat
    + if salt.isSome then (Gas.sha3WordCost gas (Frame.chargedSpan offset size).2).toNat else 0

theorem saltOperand_ok {scheme : CreateScheme} {s s' : Focus} {salt : Option Word}
    (h : saltOperand scheme s = .ok salt s') :
    ∃ stack, s' = { s with frame := { s.frame with stack } } := by
  cases scheme with
  | byNonce =>
      obtain ⟨-, rfl⟩ := pure_eq_ok.mp h
      exact ⟨s.frame.stack, rfl⟩
  | bySalt =>
      obtain ⟨w, s₁, popped, h⟩ := bind_eq_ok.mp h
      obtain ⟨stack, -, rfl⟩ := Exec.ofStack_ok popped
      obtain ⟨-, rfl⟩ := pure_eq_ok.mp h
      exact ⟨stack, rfl⟩

theorem requestCreate_ok {host : Host} {value offset size : Word} {salt : Option Word}
    {s s' : Focus} {r : CreateRequest}
    (h : requestCreate host value offset size salt s = .ok r s') :
    s.Pays (createPrice host.rules.gas salt offset size s.frame + r.gas.toNat) s' := by
  obtain ⟨span, s₁, charged, h⟩ := bind_eq_ok.mp h
  obtain ⟨paid₁, rfl, -⟩ := Exec.chargeMemory_ok charged
  have rest {t : Focus} (given : (do
      let f ← Exec.frame
      let initCode := f.memory.read (Frame.chargedSpan offset size).1
        (Frame.chargedSpan offset size).2
      let gas := if host.rules.limitCallGas then
        Gas.allButOnePart f.gas host.rules.gas.callGasDivisor else f.gas
      Exec.spend gas
      return ({ gas, creator := f.env.address, value, initCode, salt } : CreateRequest)) t
        = .ok r s') : t.Pays r.gas.toNat s' := by
    obtain ⟨f, _, read, given⟩ := bind_eq_ok.mp given
    obtain ⟨rfl, rfl⟩ := Exec.frame_eq_ok.mp read
    obtain ⟨_, s₃, spent, given⟩ := bind_eq_ok.mp given
    obtain ⟨rfl, rfl⟩ := pure_eq_ok.mp given
    exact (Exec.spend_ok spent).1
  dsimp only at h
  simp only [createPrice]
  split at h
  · next salted =>
      obtain ⟨_, s₂, hashed, h⟩ := bind_eq_ok.mp h
      rw [if_pos salted]
      exact (paid₁.trans (Exec.spend_ok hashed).1).trans (rest h)
  · next unsalted =>
      rw [if_neg unsalted]
      exact (paid₁.trans (rest h))

/-- A creation is only asked for by a frame that may change the state. -/
theorem create_ok {host : Host} {scheme : CreateScheme} {s s' : Focus} {r : CreateRequest}
    (h : create host scheme s = .ok r s') :
    s.frame.env.isStatic = false ∧ ∃ price, s.Pays (price + r.gas.toNat) s' := by
  obtain ⟨_, _, free, h⟩ := bind_eq_ok.mp h
  obtain ⟨mutable, rfl⟩ := Exec.requireMutable_ok free
  obtain ⟨⟨value, offset, size⟩, s₁, popped, h⟩ := bind_eq_ok.mp h
  obtain ⟨stack₁, -, rfl⟩ := Exec.ofStack_ok popped
  obtain ⟨salt, s₂, salted, h⟩ := bind_eq_ok.mp h
  obtain ⟨stack₂, rfl⟩ := saltOperand_ok salted
  have operands : s.Pays 0 { s with frame := { s.frame with stack := stack₂ } } := ⟨rfl, rfl, rfl⟩
  have total := operands.trans (requestCreate_ok h)
  rw [Nat.zero_add] at total
  exact ⟨mutable, _, total⟩

/-- Everything a call pays before it gives gas away: its base price, its memory and its
surcharges. -/
def callCharge (rules : Rules) (entry : OpcodeEntry) (scheme : CallScheme) (l : Ledger)
    (f : Frame) : Nat :=
  let stood := operandsOf scheme f.stack.words
  entry.baseGas.toNat + (callMemoryPrice rules.gas f stood.2
    + (callSurcharge rules l scheme (transfers scheme stood.1) stood.2.callee).toNat)

end Instruction

open Instruction

namespace Opcode

variable {host : Host} {op : Opcode} {s s' : Focus}

theorem perform_call {r : CallRequest} (h : op.perform host s = .ok (.call r) s') :
    ∃ scheme, op = .call scheme ∧ Instruction.call host scheme s = .ok r s' := by
  have asks := (op.nets_perform host s _ s' h).1
  cases op with
  | call scheme =>
      obtain ⟨r', s₁, called, h⟩ := bind_eq_ok.mp h
      obtain ⟨same, rfl⟩ := pure_eq_ok.mp h
      cases same
      exact ⟨scheme, rfl, called⟩
  | create scheme =>
      obtain ⟨r', s₁, created, h⟩ := bind_eq_ok.mp h
      cases (pure_eq_ok.mp h).1
  | _ => cases asks

theorem perform_create {r : CreateRequest} (h : op.perform host s = .ok (.create r) s') :
    ∃ scheme, op = .create scheme ∧ Instruction.create host scheme s = .ok r s' := by
  have asks := (op.nets_perform host s _ s' h).1
  cases op with
  | create scheme =>
      obtain ⟨r', s₁, created, h⟩ := bind_eq_ok.mp h
      obtain ⟨same, rfl⟩ := pure_eq_ok.mp h
      cases same
      exact ⟨scheme, rfl, created⟩
  | call scheme =>
      obtain ⟨r', s₁, called, h⟩ := bind_eq_ok.mp h
      cases (pure_eq_ok.mp h).1
  | _ => cases asks

end Opcode

namespace OpcodeEntry

variable {host : Host} {entry : OpcodeEntry} {control : Control} {s s' : Focus}

theorem dispatch_runs (h : entry.dispatch host s = .ok control s') :
    s.frame.stack.require entry.inputs entry.outputs = .ok () ∧
      ∃ t, Exec.spend entry.baseGas s = .ok () t ∧ entry.opcode.perform host t = .ok control s' := by
  obtain ⟨f, _, read, h⟩ := bind_eq_ok.mp h
  obtain ⟨rfl, rfl⟩ := Exec.frame_eq_ok.mp read
  cases required : s.frame.stack.require entry.inputs entry.outputs with
  | error cause =>
      simp only [required] at h
      obtain ⟨_, _, failed, -⟩ := bind_eq_ok.mp h
      cases failed
  | ok =>
      simp only [required] at h
      obtain ⟨_, t, spent, h⟩ := bind_eq_ok.mp h
      exact ⟨rfl, t, spent, h⟩

theorem dispatch_ok (h : entry.dispatch host s = .ok control s') :
    s.frame.stack.require entry.inputs entry.outputs = .ok () ∧
      ∃ t, s.Pays entry.baseGas.toNat t ∧ t.frame.memory = s.frame.memory ∧
        t.frame.stack = s.frame.stack ∧ entry.opcode.perform host t = .ok control s' := by
  obtain ⟨required, t, spent, performed⟩ := dispatch_runs h
  obtain ⟨pays, memory, stack⟩ := Exec.spend_ok spent
  exact ⟨required, t, pays, memory, stack, performed⟩

end OpcodeEntry

namespace Focus

variable {host : Host} {fetched : Fetched} {s s' : Focus}

theorem pays_advance (s : Focus) (n : Nat) : s.Pays 0 { s with frame := s.frame.advance n } :=
  ⟨rfl, rfl, rfl⟩

theorem step_request {control : Control} (asks : control.isRequest = true)
    (h : s.step host fetched = .ok control s') :
    ∃ entry t, fetched = .instruction entry ∧ entry.dispatch host s = .ok control t ∧
      s' = { t with frame := t.frame.advance 1 } := by
  cases fetched with
  | interrupted | endOfCode | illegal =>
      cases h
      cases asks
  | instruction entry =>
      simp only [step] at h
      split at h
      · next t ran =>
          cases h
          refine ⟨entry, t, rfl, ran, ?_⟩
          cases control with
          | call | create => rfl
          | next | jumped | halted => cases asks
      · cases h
        cases asks
      · cases h

/-- A step that asks for a call has paid the charges of the call and given away some gas. -/
theorem step_call {r : CallRequest} (h : s.step host fetched = .ok (.call r) s') :
    ∃ entry scheme sent, fetched = .instruction entry ∧ entry.opcode = .call scheme ∧
      s.Pays (callCharge host.rules entry scheme s.ledger s.frame + sent.toNat) s' ∧
      r = callRequest host.rules scheme (operandsOf scheme s.frame.stack.words).2
        (operandsOf scheme s.frame.stack.words).1
        (transfers scheme (operandsOf scheme s.frame.stack.words).1) sent s'.frame ∧
      s'.frame.memory.Covers r.outOffset r.outLength ∧
      (scheme = .call → r.transfersValue = true → s.frame.env.isStatic = false) := by
  obtain ⟨entry, u, rfl, dispatched, rfl⟩ := step_request rfl h
  obtain ⟨-, t, base, memory, stack, performed⟩ := entry.dispatch_ok dispatched
  obtain ⟨scheme, isCall, called⟩ := Opcode.perform_call performed
  obtain ⟨sent, paid, rfl, covers, mutable⟩ := call_ok (Prod.eta _).symm called
  refine ⟨entry, scheme, sent, rfl, isCall, ?_, by rw [stack]; rfl, covers, base.env ▸ mutable⟩
  have total := (base.trans paid).trans (pays_advance u 1)
  rw [stack, base.ledger] at total
  have prices (operands : CallOperands) :
      callMemoryPrice host.rules.gas t.frame operands =
        callMemoryPrice host.rules.gas s.frame operands := by
    simp only [callMemoryPrice, Frame.memoryPrice, Frame.grown, memory]
  rw [prices] at total
  simpa only [callCharge, Nat.add_assoc, Nat.add_zero] using total

/-- A step that asks for a creation has paid for it and given away the gas of the init frame. -/
theorem step_create {r : CreateRequest} (h : s.step host fetched = .ok (.create r) s') :
    s.frame.env.isStatic = false ∧ ∃ entry scheme price, fetched = .instruction entry ∧
      entry.opcode = .create scheme ∧ entry.baseGas.toNat ≤ price ∧
      s.Pays (price + r.gas.toNat) s' := by
  obtain ⟨entry, u, rfl, dispatched, rfl⟩ := step_request rfl h
  obtain ⟨-, t, base, -, -, performed⟩ := entry.dispatch_ok dispatched
  obtain ⟨scheme, isCreate, created⟩ := Opcode.perform_create performed
  obtain ⟨mutable, price, paid⟩ := create_ok created
  refine ⟨base.env ▸ mutable, entry, scheme, entry.baseGas.toNat + price, rfl, isCreate,
    Nat.le_add_right _ _, ?_⟩
  have total := (base.trans paid).trans (pays_advance u 1)
  simpa only [Nat.add_assoc, Nat.add_zero] using total

end Focus
end EvmEngine
