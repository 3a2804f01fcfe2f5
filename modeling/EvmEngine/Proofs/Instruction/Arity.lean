import EvmEngine.Machine
import EvmEngine.Proofs.Exec.Arity

/-!
What an instruction that succeeds does to the stack: it takes as many words from the top as its
arity says and leaves as many in their place. A call or a creation leaves none, since its one word
is pushed when the result comes in. The way to go on is fixed by the instruction as well.
-/

namespace EvmEngine

open Exec

namespace Instruction

theorem takes_chargeCopy (gas : GasSchedule) (destination size : Word) :
    Takes 0 (chargeCopy gas destination size) := by
  refine nets_after (takes_chargeMemory _ _ _) fun span => ?_
  refine nets_after (takes_spend _) fun _ => ?_
  exact nets_pure trivial

theorem takes_copyWindow (destination : Nat) (bytes : ByteArray) (source : Word) (size : Nat) :
    Takes 0 (copyWindow destination bytes source size) := by
  simp only [copyWindow]
  split
  · exact nets_pure trivial
  · exact takes_modifyFrame fun _ => rfl

theorem nets_callDataLoad : Nets 1 1 (fun _ => True) callDataLoad := by
  refine nets_bind takes_pop fun offset => ?_
  refine nets_after takes_frame fun f => ?_
  exact nets_pushWord _

theorem takes_copy (host : Host) (source : CopySource) : Takes 3 (copy host source) := by
  refine nets_bind takes_pop3 fun ⟨destination, offset, size⟩ => ?_
  refine nets_after (takes_chargeCopy _ _ _) fun span => ?_
  refine nets_after takes_frame fun f => ?_
  exact takes_copyWindow _ _ _ _

theorem takes_returnDataCopy (host : Host) : Takes 3 (returnDataCopy host) := by
  refine nets_bind takes_pop3 fun ⟨destination, offset, size⟩ => ?_
  refine nets_after takes_frame fun f => ?_
  refine nets_when (takes_fail _) ?_
  refine nets_after (takes_chargeCopy _ _ _) fun span => ?_
  exact takes_copyWindow _ _ _ _

theorem takes_extCodeCopy (host : Host) : Takes 4 (extCodeCopy host) := by
  refine nets_bind takes_pop4 fun ⟨account, destination, offset, size⟩ => ?_
  refine nets_after (takes_chargeCopy _ _ _) fun span => ?_
  refine nets_after takes_ledger fun l => ?_
  exact takes_copyWindow _ _ _ _

theorem nets_sha3 (host : Host) : Nets 2 1 (fun _ => True) (sha3 host) := by
  refine nets_bind takes_pop2 fun ⟨offset, size⟩ => ?_
  refine nets_after (takes_chargeMemory _ _ _) fun span => ?_
  refine nets_after (takes_spend _) fun _ => ?_
  refine nets_after takes_frame fun f => ?_
  exact nets_pushWord _

theorem nets_mload (host : Host) : Nets 1 1 (fun _ => True) (mload host) := by
  refine nets_bind takes_pop fun offset => ?_
  refine nets_after (takes_chargeMemory _ _ _) fun span => ?_
  refine nets_after takes_frame fun f => ?_
  exact nets_pushWord _

theorem takes_mstore (host : Host) : Takes 2 (mstore host) := by
  refine nets_bind takes_pop2 fun ⟨offset, value⟩ => ?_
  refine nets_after (takes_chargeMemory _ _ _) fun span => ?_
  exact takes_modifyFrame fun _ => rfl

theorem takes_mstore8 (host : Host) : Takes 2 (mstore8 host) := by
  refine nets_bind takes_pop2 fun ⟨offset, value⟩ => ?_
  refine nets_after (takes_chargeMemory _ _ _) fun span => ?_
  exact takes_modifyFrame fun _ => rfl

theorem nets_sload : Nets 1 1 (fun _ => True) sload := by
  refine nets_bind takes_pop fun key => ?_
  refine nets_after (takes_load key) fun value => ?_
  exact nets_pushWord value

theorem takes_store (key value : Word) : Takes 0 (store key value) := by
  refine nets_after takes_requireMutable fun _ => ?_
  refine nets_after takes_frame fun f => ?_
  exact takes_modifyLedger _

theorem takes_sstore (host : Host) : Takes 2 (sstore host) := by
  refine nets_after takes_requireMutable fun _ => ?_
  refine nets_bind takes_pop2 fun ⟨key, value⟩ => ?_
  refine nets_after takes_frame fun f => ?_
  refine nets_when (takes_fail _) ?_
  refine nets_after takes_ledger fun l => ?_
  refine nets_after (takes_spend _) fun _ => ?_
  refine nets_after (takes_modifyFrame fun _ => rfl) fun _ => ?_
  exact takes_store key value

theorem takes_log (host : Host) (n : Nat) : Takes (n + 2) (log host n) := by
  refine nets_after takes_requireMutable fun _ => ?_
  refine nets_bind takes_pop2 fun ⟨offset, size⟩ => ?_
  refine nets_then (takes_popN n) fun topics => ?_
  refine nets_after (takes_chargeMemory _ _ _) fun span => ?_
  refine nets_after (takes_spend _) fun _ => ?_
  exact takes_modifyFrame fun _ => rfl

theorem takes_halted (halt : Halt) : Takes 0 (modifyFrame (·.halted halt)) := by
  refine takes_modifyFrame fun f => ?_
  simp only [Frame.halted]
  split <;> rfl

theorem takes_haltWithOutput (host : Host) (halt : Halt) : Takes 2 (haltWithOutput host halt) := by
  refine nets_bind takes_pop2 fun ⟨offset, size⟩ => ?_
  refine nets_after (takes_chargeMemory _ _ _) fun span => ?_
  refine nets_after (takes_modifyFrame fun _ => rfl) fun _ => ?_
  exact takes_halted halt

theorem takes_jump (destination : Word) : Takes 0 (onFrame (·.jump destination)) := by
  refine takes_onFrame fun g g' jumped => ?_
  simp only [Frame.jump] at jumped
  split at jumped <;> cases jumped
  rfl

theorem takes_recordDestroyed (a : Address) : Takes 0 (modifyFrame (·.recordDestroyed a)) := by
  refine takes_modifyFrame fun f => ?_
  simp only [Frame.recordDestroyed]
  split <;> rfl

theorem takes_selfDestruct (host : Host) : Takes 1 (selfDestruct host) := by
  refine nets_after takes_requireMutable fun _ => ?_
  refine nets_bind takes_pop fun word => ?_
  refine nets_after takes_frame fun f => ?_
  refine nets_after takes_ledger fun l => ?_
  refine nets_when (takes_spend _) ?_
  refine nets_after (takes_recordDestroyed _) fun _ => ?_
  dsimp only
  split
  · refine nets_after (takes_onLedger _) fun _ => ?_
    refine nets_after (takes_onLedger _) fun _ => ?_
    exact takes_halted .stopped
  · exact takes_halted .stopped

theorem takes_create (host : Host) (scheme : CreateScheme) :
    Takes (Opcode.create scheme).inputs (create host scheme) := by
  have requests (value offset size : Word) (salt : Option Word) :
      Takes 0 (requestCreate host value offset size salt) := by
    refine nets_after (takes_chargeMemory _ _ _) fun span => ?_
    refine nets_when (takes_spend _) ?_
    refine nets_after takes_frame fun f => ?_
    refine nets_after (takes_spend _) fun _ => ?_
    exact nets_pure trivial
  refine nets_after takes_requireMutable fun _ => ?_
  cases scheme with
  | byNonce =>
      show Takes 3 _
      refine nets_bind takes_pop3 fun ⟨value, offset, size⟩ => ?_
      exact nets_after (nets_pure trivial) fun salt => requests _ _ _ salt
  | bySalt =>
      show Takes 4 _
      have salted : Takes 1 (saltOperand .bySalt) :=
        nets_then takes_pop fun salt => nets_pure trivial
      refine nets_bind takes_pop3 fun ⟨value, offset, size⟩ => ?_
      exact nets_bind salted fun salt => requests value offset size salt

theorem takes_call (host : Host) (scheme : CallScheme) :
    Takes (Opcode.call scheme).inputs (call host scheme) := by
  have requests (operands : CallOperands) (value : Word) (transfersValue : Bool) :
      Takes 0 (requestCall host scheme operands value transfersValue) := by
    refine nets_after (takes_chargeMemory _ _ _) fun input => ?_
    refine nets_after (takes_chargeMemory _ _ _) fun output => ?_
    refine nets_after takes_ledger fun l => ?_
    refine nets_after (takes_spend _) fun _ => ?_
    refine nets_after takes_frame fun f => ?_
    refine nets_after (takes_ofFrame fun g gas g' h => ?_) fun forwarded => ?_
    · cases sent : Gas.forwarded host.rules f.gas operands.gas with
      | error cause => simp [sent, Except.map] at h
      | ok amount =>
          simp only [sent, Except.map, Except.ok.injEq, Prod.mk.injEq] at h
          rw [h.2]
    refine nets_after (takes_spend _) fun _ => ?_
    refine nets_after takes_frame fun f => ?_
    exact nets_pure trivial
  cases scheme with
  | call | callCode =>
      show Takes 7 _
      refine nets_bind takes_pop2 fun operands => ?_
      refine nets_bind takes_pop fun value => ?_
      refine nets_bind takes_pop4 fun spans => ?_
      exact nets_when takes_requireMutable (requests _ _ _)
  | delegateCall | staticCall =>
      show Takes 6 _
      refine nets_bind takes_pop2 fun operands => ?_
      refine nets_after (nets_pure trivial) fun value => ?_
      refine nets_bind takes_pop4 fun spans => ?_
      exact nets_when takes_requireMutable (requests _ _ _)

end Instruction

namespace Control

/-- Whether another frame is asked for. -/
def isRequest : Control → Bool
  | call _ | create _ => true
  | next | jumped | halted => false

end Control

namespace Opcode

def isRequest : Opcode → Bool
  | create _ | call _ => true
  | _ => false

/-- The number of words the instruction itself leaves on the stack. -/
def leaves (op : Opcode) : Nat :=
  if op.isRequest then 0 else op.outputs

/-- What an instruction leaves is at most one word more than what it takes; one that asks for
another frame leaves at least three words less. -/
theorem leaves_le (op : Opcode) :
    if op.isRequest then op.leaves + 3 ≤ op.inputs else op.leaves ≤ op.inputs + 1 := by
  cases op with
  | create scheme => cases scheme <;> decide
  | call scheme => cases scheme <;> decide
  | dup n | swap n | log n => simp [leaves, isRequest, inputs, outputs]
  | _ => simp [leaves, isRequest, inputs, outputs]

open Instruction in
theorem nets_perform (host : Host) (op : Opcode) :
    Nets op.inputs op.leaves (fun control => control.isRequest = op.isRequest)
      (op.perform host) := by
  cases op with
  | stop => exact nets_then (takes_halted .stopped) fun _ => nets_pure rfl
  | unary op =>
      refine nets_bind takes_pop fun a => ?_
      exact nets_then (nets_pushWord _) fun _ => nets_pure rfl
  | binary op =>
      refine nets_bind takes_pop2 fun operands => ?_
      exact nets_then (nets_pushWord _) fun _ => nets_pure rfl
  | ternary op =>
      refine nets_bind takes_pop3 fun operands => ?_
      exact nets_then (nets_pushWord _) fun _ => nets_pure rfl
  | exp =>
      refine nets_bind takes_pop2 fun ⟨base, exponent⟩ => ?_
      refine nets_after (takes_spend _) fun _ => ?_
      exact nets_then (nets_pushWord _) fun _ => nets_pure rfl
  | query =>
      refine nets_after takes_frame fun f => ?_
      exact nets_then (nets_pushWord _) fun _ => nets_pure rfl
  | account =>
      refine nets_bind takes_pop fun a => ?_
      refine nets_after takes_ledger fun l => ?_
      exact nets_then (nets_pushWord _) fun _ => nets_pure rfl
  | selfBalance =>
      refine nets_after takes_ledger fun l => ?_
      refine nets_after takes_frame fun f => ?_
      exact nets_then (nets_pushWord _) fun _ => nets_pure rfl
  | blockHash =>
      refine nets_bind takes_pop fun requested => ?_
      refine nets_after takes_frame fun f => ?_
      exact nets_then (nets_pushWord _) fun _ => nets_pure rfl
  | sha3 => exact nets_then (nets_sha3 host) fun _ => nets_pure rfl
  | callDataLoad => exact nets_then nets_callDataLoad fun _ => nets_pure rfl
  | copy source => exact nets_then (takes_copy host source) fun _ => nets_pure rfl
  | returnDataCopy => exact nets_then (takes_returnDataCopy host) fun _ => nets_pure rfl
  | extCodeCopy => exact nets_then (takes_extCodeCopy host) fun _ => nets_pure rfl
  | pop => exact nets_then takes_pop fun _ => nets_pure rfl
  | mload => exact nets_then (nets_mload host) fun _ => nets_pure rfl
  | mstore => exact nets_then (takes_mstore host) fun _ => nets_pure rfl
  | mstore8 => exact nets_then (takes_mstore8 host) fun _ => nets_pure rfl
  | sload => exact nets_then nets_sload fun _ => nets_pure rfl
  | sstore => exact nets_then (takes_sstore host) fun _ => nets_pure rfl
  | jump =>
      refine nets_bind takes_pop fun destination => ?_
      exact nets_then (takes_jump destination) fun _ => nets_pure rfl
  | jumpIf =>
      refine nets_bind takes_pop2 fun ⟨destination, condition⟩ => ?_
      dsimp only
      split
      · exact nets_pure rfl
      · exact nets_then (takes_jump destination) fun _ => nets_pure rfl
  | jumpDest => exact nets_pure rfl
  | push n =>
      refine nets_after takes_frame fun f => ?_
      refine nets_then (nets_pushWord _) fun _ => ?_
      exact nets_after (takes_modifyFrame fun _ => rfl) fun _ => nets_pure rfl
  | dup n => exact nets_then (nets_dup n) fun _ => nets_pure rfl
  | swap n => exact nets_then (nets_swap n) fun _ => nets_pure rfl
  | log n => exact nets_then (takes_log host n) fun _ => nets_pure rfl
  | create scheme => exact nets_then (takes_create host scheme) fun _ => nets_pure rfl
  | call scheme => exact nets_then (takes_call host scheme) fun _ => nets_pure rfl
  | ret => exact nets_then (takes_haltWithOutput host .stopped) fun _ => nets_pure rfl
  | revert => exact nets_then (takes_haltWithOutput host .reverted) fun _ => nets_pure rfl
  | selfDestruct => exact nets_then (takes_selfDestruct host) fun _ => nets_pure rfl

end Opcode

theorem OpcodeEntry.nets_dispatch (host : Host) (entry : OpcodeEntry) :
    Nets entry.opcode.inputs entry.opcode.leaves
      (fun control => control.isRequest = entry.opcode.isRequest) (entry.dispatch host) := by
  refine nets_after takes_frame fun f => ?_
  split
  · exact nets_after (takes_fail _) fun _ => nets_after (takes_spend _) fun _ =>
      entry.opcode.nets_perform host
  · exact nets_after (takes_spend _) fun _ => entry.opcode.nets_perform host

end EvmEngine
