import EvmEngine.Machine

/-!
What a frame fetches. An instruction comes with the arity and the base price that the rules give it.
-/

namespace EvmEngine

/-- An entry of the table for some rules. -/
structure OpcodeEntry.Listed (rules : Rules) (entry : OpcodeEntry) : Prop where
  inputs : entry.inputs = entry.opcode.inputs
  outputs : entry.outputs = entry.opcode.outputs
  baseGas : entry.baseGas = entry.opcode.baseGas rules.gas

theorem Rules.named_of_entry {rules : Rules} {byte : UInt8} {entry : OpcodeEntry}
    (h : rules.opcodeEntry? byte = some entry) : Opcode.ofByte? byte = some entry.opcode := by
  unfold opcodeEntry? at h
  split at h
  · cases h
  · next named =>
      split at h
      · cases h
        exact named
      · cases h

theorem Rules.listed_of_entry {rules : Rules} {byte : UInt8} {entry : OpcodeEntry}
    (h : rules.opcodeEntry? byte = some entry) : entry.Listed rules := by
  unfold opcodeEntry? at h
  split at h
  · cases h
  · split at h
    · cases h
      exact ⟨rfl, rfl, rfl⟩
    · cases h

theorem OpcodeTable.get?_ofRules (rules : Rules) (byte : UInt8) :
    (ofRules rules).get? byte = rules.opcodeEntry? byte := by
  have inside : byte.toNat < 256 := byte.toNat_lt
  simp [get?, ofRules, inside]

theorem Opcode.pushSize?_toByte (op : Opcode) : pushSize? op.toByte = op.operandSize? := by
  cases op with
  | unary op | binary op | ternary op | query op | account op | copy op | create op | call op =>
      cases op <;> rfl
  | push n | dup n | swap n | log n => decide +revert
  | _ => rfl

/-- Only the bytes of the pushes have an operand. -/
theorem Opcode.pushSize?_of_ofByte? {byte : UInt8} {op : Opcode} (h : ofByte? byte = some op) :
    pushSize? byte = op.operandSize? := by
  obtain ⟨same, -⟩ := List.find?_eq_some_iff_append.mp h
  rw [← op.pushSize?_toByte, beq_iff_eq.mp same]

/-- An instruction is fetched for the byte at the counter. -/
theorem Frame.entry_of_fetch {f : Frame} {host : Host} {interrupted : Bool} {entry : OpcodeEntry}
    (h : f.fetch host interrupted = .instruction entry) :
    ∃ byte, f.code[f.pc]? = some byte ∧ host.rules.opcodeEntry? byte = some entry := by
  simp only [fetch] at h
  split at h
  · cases h
  · split at h
    · cases h
    · next byte here =>
        split at h
        · cases h
        · next found =>
            cases h
            rw [host.table_eq, OpcodeTable.get?_ofRules] at found
            exact ⟨byte, here, found⟩

theorem Frame.listed_of_fetch {f : Frame} {host : Host} {interrupted : Bool} {entry : OpcodeEntry}
    (h : f.fetch host interrupted = .instruction entry) : entry.Listed host.rules := by
  obtain ⟨byte, -, found⟩ := entry_of_fetch h
  exact Rules.listed_of_entry found

theorem Frame.byte_of_fetch {f : Frame} {host : Host} {interrupted : Bool} {entry : OpcodeEntry}
    (h : f.fetch host interrupted = .instruction entry) :
    ∃ byte, f.code[f.pc]? = some byte ∧ Opcode.ofByte? byte = some entry.opcode := by
  obtain ⟨byte, here, found⟩ := entry_of_fetch h
  exact ⟨byte, here, Rules.named_of_entry found⟩

end EvmEngine
