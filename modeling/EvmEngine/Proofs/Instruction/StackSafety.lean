import EvmEngine.Proofs.Exec.StackSafety
import EvmEngine.Proofs.Instruction.Arity

/-!
Instructions never run out of stack. An instruction that finds the words its arity names, and room for
those that it leaves, fails over neither; if it fails over anything else, the frame still runs and no
more than those words are gone. One that succeeds ends the frame only where it says so.
-/

namespace EvmEngine

open Exec

namespace Instruction

theorem draws_chargeCopy (gas : GasSchedule) (destination size : Word) :
    Draws 0 (chargeCopy gas destination size) := by
  refine draws_bind (draws_chargeMemory _ _ _) fun span => ?_
  refine draws_bind (draws_spend _) fun _ => ?_
  exact draws_pure span

theorem draws_copyWindow (destination : Nat) (bytes : ByteArray) (source : Word) (size : Nat) :
    Draws 0 (copyWindow destination bytes source size) := by
  simp only [copyWindow]
  split
  · exact draws_pure ()
  · exact draws_modifyFrame (fun _ => rfl) fun _ => rfl

theorem safe_callDataLoad : Safe 1 1 (fun _ => true) callDataLoad := by
  refine safe_bind draws_pop fun offset => ?_
  refine safe_after draws_frame fun f => ?_
  exact safe_pushWord _

theorem safe_copy (host : Host) (source : CopySource) :
    Safe 3 0 (fun _ => true) (copy host source) := by
  refine safe_bind draws_pop3 fun ⟨destination, offset, size⟩ => ?_
  refine safe_after (draws_chargeCopy _ _ _) fun span => ?_
  refine safe_after draws_frame fun f => ?_
  exact (draws_copyWindow _ _ _ _).safe

theorem safe_returnDataCopy (host : Host) :
    Safe 3 0 (fun _ => true) (returnDataCopy host) := by
  refine safe_bind draws_pop3 fun ⟨destination, offset, size⟩ => ?_
  refine safe_after draws_frame fun f => ?_
  refine safe_when (draws_fail rfl) ?_
  refine safe_after (draws_chargeCopy _ _ _) fun span => ?_
  exact (draws_copyWindow _ _ _ _).safe

theorem safe_extCodeCopy (host : Host) : Safe 4 0 (fun _ => true) (extCodeCopy host) := by
  refine safe_bind draws_pop4 fun ⟨account, destination, offset, size⟩ => ?_
  refine safe_after (draws_chargeCopy _ _ _) fun span => ?_
  refine safe_after draws_ledger fun l => ?_
  exact (draws_copyWindow _ _ _ _).safe

theorem safe_sha3 (host : Host) : Safe 2 1 (fun _ => true) (sha3 host) := by
  refine safe_bind draws_pop2 fun ⟨offset, size⟩ => ?_
  refine safe_after (draws_chargeMemory _ _ _) fun span => ?_
  refine safe_after (draws_spend _) fun _ => ?_
  refine safe_after draws_frame fun f => ?_
  exact safe_pushWord _

theorem safe_mload (host : Host) : Safe 1 1 (fun _ => true) (mload host) := by
  refine safe_bind draws_pop fun offset => ?_
  refine safe_after (draws_chargeMemory _ _ _) fun span => ?_
  refine safe_after draws_frame fun f => ?_
  exact safe_pushWord _

theorem safe_mstore (host : Host) : Safe 2 0 (fun _ => true) (mstore host) := by
  refine safe_bind draws_pop2 fun ⟨offset, value⟩ => ?_
  refine safe_after (draws_chargeMemory _ _ _) fun span => ?_
  exact Draws.safe (draws_modifyFrame (fun _ => rfl) fun _ => rfl)

theorem safe_mstore8 (host : Host) : Safe 2 0 (fun _ => true) (mstore8 host) := by
  refine safe_bind draws_pop2 fun ⟨offset, value⟩ => ?_
  refine safe_after (draws_chargeMemory _ _ _) fun span => ?_
  exact Draws.safe (draws_modifyFrame (fun _ => rfl) fun _ => rfl)

theorem safe_sload : Safe 1 1 (fun _ => true) sload := by
  refine safe_bind draws_pop fun key => ?_
  refine safe_after (draws_load key) fun value => ?_
  exact safe_pushWord value

theorem draws_store (key value : Word) : Draws 0 (store key value) := by
  refine draws_bind draws_requireMutable fun _ => ?_
  refine draws_bind draws_frame fun f => ?_
  exact draws_modifyLedger _

theorem safe_sstore (host : Host) : Safe 2 0 (fun _ => true) (sstore host) := by
  refine safe_after draws_requireMutable fun _ => ?_
  refine safe_bind draws_pop2 fun ⟨key, value⟩ => ?_
  refine safe_after draws_frame fun f => ?_
  refine safe_when (draws_fail rfl) ?_
  refine safe_after draws_ledger fun l => ?_
  refine safe_after (draws_spend _) fun _ => ?_
  refine safe_after (draws_modifyFrame (fun _ => rfl) fun _ => rfl) fun _ => ?_
  exact (draws_store key value).safe

theorem safe_log (host : Host) (n : Nat) : Safe (n + 2) 0 (fun _ => true) (log host n) := by
  refine safe_after draws_requireMutable fun _ => ?_
  refine safe_bind draws_pop2 fun ⟨offset, size⟩ => ?_
  refine safe_over (draws_popN n) fun topics => ?_
  refine safe_after (draws_chargeMemory _ _ _) fun span => ?_
  refine safe_after (draws_spend _) fun _ => ?_
  exact Draws.safe (draws_modifyFrame (fun _ => rfl) fun _ => rfl)

theorem safe_haltWithOutput (host : Host) {halt : Halt} (ends : halt ≠ .running) :
    Safe 2 0 (fun _ => false) (haltWithOutput host halt) := by
  refine safe_bind draws_pop2 fun ⟨offset, size⟩ => ?_
  refine safe_after (draws_chargeMemory _ _ _) fun span => ?_
  refine safe_after (draws_modifyFrame (fun _ => rfl) fun _ => rfl) fun _ => ?_
  exact safe_halted ends

theorem safe_jump (destination : Word) :
    Safe 0 0 (fun _ => true) (onFrame (·.jump destination)) := by
  refine safe_onFrame (fun g g' jumped => ?_) fun g cause failed => ?_
  · simp only [Frame.jump] at jumped
    split at jumped <;> cases jumped
    rfl
  · simp only [Frame.jump] at failed
    split at failed <;> cases failed
    rfl

theorem draws_recordDestroyed (a : Address) : Draws 0 (modifyFrame (·.recordDestroyed a)) := by
  refine draws_modifyFrame (fun f => ?_) fun f => ?_ <;>
  · simp only [Frame.recordDestroyed]
    split <;> rfl

theorem safe_selfDestruct (host : Host) : Safe 1 0 (fun _ => false) (selfDestruct host) := by
  refine safe_after draws_requireMutable fun _ => ?_
  refine safe_bind draws_pop fun word => ?_
  refine safe_after draws_frame fun f => ?_
  refine safe_after draws_ledger fun l => ?_
  refine safe_when (draws_spend _) ?_
  refine safe_after (draws_recordDestroyed _) fun _ => ?_
  dsimp only
  split
  · refine safe_after (draws_onLedger _) fun _ => ?_
    refine safe_after (draws_onLedger _) fun _ => ?_
    exact safe_halted (by simp)
  · exact safe_halted (by simp)

theorem draws_forwarded (rules : Rules) (available : UInt64) (requested : Word) :
    Draws 0 (ofFrame fun f =>
      (Gas.forwarded rules available requested).map fun gas => (gas, f)) := by
  cases sent : Gas.forwarded rules available requested with
  | ok amount =>
      refine ⟨takes_ofFrame fun g gas g' h => ?_, safe_of_ok fun s provides => ?_⟩
      · cases h
        rfl
      · exact ⟨amount, s, rfl, provides.running⟩
  | error cause =>
      refine ⟨takes_ofFrame fun g gas g' h => ?_, safe_ofFrame (fun g gas g' h => ?_)
        fun g other failed => ?_⟩
      · cases h
      · cases h
      cases failed
      simp only [Gas.forwarded] at sent
      split at sent
      · cases sent
      · split at sent
        · cases sent
          rfl
        · split at sent <;> cases sent
          rfl

theorem safe_create (host : Host) (scheme : CreateScheme) :
    Safe (Opcode.create scheme).inputs 0 (fun _ => true) (create host scheme) := by
  have requests (value offset size : Word) (salt : Option Word) :
      Safe 0 0 (fun _ => true) (requestCreate host value offset size salt) := by
    refine safe_after (draws_chargeMemory _ _ _) fun span => ?_
    refine safe_when (draws_spend _) ?_
    refine safe_after draws_frame fun f => ?_
    refine safe_after (draws_spend _) fun _ => ?_
    exact safe_pure rfl
  refine safe_after draws_requireMutable fun _ => ?_
  cases scheme with
  | byNonce =>
      show Safe 3 0 _ _
      refine safe_bind draws_pop3 fun ⟨value, offset, size⟩ => ?_
      exact safe_after (draws_pure none) fun salt => requests _ _ _ salt
  | bySalt =>
      show Safe 4 0 _ _
      have salted : Draws 1 (saltOperand .bySalt) :=
        draws_bind draws_pop fun salt => draws_pure (some salt)
      refine safe_bind draws_pop3 fun ⟨value, offset, size⟩ => ?_
      exact safe_bind salted fun salt => requests value offset size salt

theorem safe_call (host : Host) (scheme : CallScheme) :
    Safe (Opcode.call scheme).inputs 0 (fun _ => true) (call host scheme) := by
  have requests (operands : CallOperands) (value : Word) (transfersValue : Bool) :
      Safe 0 0 (fun _ => true) (requestCall host scheme operands value transfersValue) := by
    refine safe_after (draws_chargeMemory _ _ _) fun input => ?_
    refine safe_after (draws_chargeMemory _ _ _) fun output => ?_
    refine safe_after draws_ledger fun l => ?_
    refine safe_after (draws_spend _) fun _ => ?_
    refine safe_after draws_frame fun f => ?_
    refine safe_after (draws_forwarded _ _ _) fun forwarded => ?_
    refine safe_after (draws_spend _) fun _ => ?_
    refine safe_after draws_frame fun f => ?_
    exact safe_pure rfl
  cases scheme with
  | call | callCode =>
      show Safe 7 0 _ _
      refine safe_bind draws_pop2 fun operands => ?_
      refine safe_bind draws_pop fun value => ?_
      refine safe_bind draws_pop4 fun spans => ?_
      exact safe_when draws_requireMutable (requests _ _ _)
  | delegateCall | staticCall =>
      show Safe 6 0 _ _
      refine safe_bind draws_pop2 fun operands => ?_
      refine safe_after (draws_pure 0) fun value => ?_
      refine safe_bind draws_pop4 fun spans => ?_
      exact safe_when draws_requireMutable (requests _ _ _)

end Instruction

namespace Control

/-- Whether the frame still runs. -/
def goesOn : Control → Bool
  | halted => false
  | next | jumped | call _ | create _ => true

end Control

namespace Opcode

open Instruction in
theorem safe_perform (host : Host) (op : Opcode) :
    Safe op.inputs op.leaves Control.goesOn (op.perform host) := by
  cases op with
  | stop => exact safe_map (safe_halted (by simp)) fun _ => rfl
  | unary op =>
      refine safe_bind draws_pop fun a => ?_
      exact safe_map (safe_pushWord _) fun _ => rfl
  | binary op =>
      refine safe_bind draws_pop2 fun operands => ?_
      exact safe_map (safe_pushWord _) fun _ => rfl
  | ternary op =>
      refine safe_bind draws_pop3 fun operands => ?_
      exact safe_map (safe_pushWord _) fun _ => rfl
  | exp =>
      refine safe_bind draws_pop2 fun ⟨base, exponent⟩ => ?_
      refine safe_after (draws_spend _) fun _ => ?_
      exact safe_map (safe_pushWord _) fun _ => rfl
  | query =>
      refine safe_after draws_frame fun f => ?_
      exact safe_map (safe_pushWord _) fun _ => rfl
  | account =>
      refine safe_bind draws_pop fun a => ?_
      refine safe_after draws_ledger fun l => ?_
      exact safe_map (safe_pushWord _) fun _ => rfl
  | selfBalance =>
      refine safe_after draws_ledger fun l => ?_
      refine safe_after draws_frame fun f => ?_
      exact safe_map (safe_pushWord _) fun _ => rfl
  | blockHash =>
      refine safe_bind draws_pop fun requested => ?_
      refine safe_after draws_frame fun f => ?_
      exact safe_map (safe_pushWord _) fun _ => rfl
  | sha3 => exact safe_map (safe_sha3 host) fun _ => rfl
  | callDataLoad => exact safe_map safe_callDataLoad fun _ => rfl
  | copy source => exact safe_map (safe_copy host source) fun _ => rfl
  | returnDataCopy => exact safe_map (safe_returnDataCopy host) fun _ => rfl
  | extCodeCopy => exact safe_map (safe_extCodeCopy host) fun _ => rfl
  | pop => exact safe_map draws_pop.safe fun _ => rfl
  | mload => exact safe_map (safe_mload host) fun _ => rfl
  | mstore => exact safe_map (safe_mstore host) fun _ => rfl
  | mstore8 => exact safe_map (safe_mstore8 host) fun _ => rfl
  | sload => exact safe_map safe_sload fun _ => rfl
  | sstore => exact safe_map (safe_sstore host) fun _ => rfl
  | jump =>
      refine safe_bind draws_pop fun destination => ?_
      exact safe_map (safe_jump destination) fun _ => rfl
  | jumpIf =>
      refine safe_bind draws_pop2 fun ⟨destination, condition⟩ => ?_
      dsimp only
      split
      · exact safe_pure rfl
      · exact safe_map (safe_jump destination) fun _ => rfl
  | jumpDest => exact safe_pure rfl
  | push n =>
      refine safe_after draws_frame fun f => ?_
      refine safe_then (safe_pushWord _) fun _ s running => ?_
      exact ⟨.next, { s with frame := s.frame.advance (n.val + 1) }, rfl, running⟩
  | dup n => exact safe_map (safe_dup n) fun _ => rfl
  | swap n => exact safe_map (safe_swap n) fun _ => rfl
  | log n => exact safe_map (safe_log host n) fun _ => rfl
  | create scheme => exact safe_map (safe_create host scheme) fun _ => rfl
  | call scheme => exact safe_map (safe_call host scheme) fun _ => rfl
  | ret => exact safe_map (safe_haltWithOutput host (by simp)) fun _ => rfl
  | revert => exact safe_map (safe_haltWithOutput host (by simp)) fun _ => rfl
  | selfDestruct => exact safe_map (safe_selfDestruct host) fun _ => rfl

end Opcode
end EvmEngine
