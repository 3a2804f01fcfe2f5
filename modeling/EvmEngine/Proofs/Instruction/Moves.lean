import EvmEngine.Machine
import EvmEngine.Proofs.Exec.Moves

/-!
Each instruction, with the check of the stack and the base price before it, makes only the changes
that belong to it.
-/

namespace EvmEngine

open Effects Exec Focus

namespace Instruction
variable {op : Opcode} {env : Environment}

theorem within_chargeCopy (gas : GasSchedule) (destination size : Word) :
    Within op env (chargeCopy gas destination size) := by
  refine within_bind (within_chargeMemory gas destination size) fun span => ?_
  refine within_bind (within_spend _) fun _ => ?_
  exact within_pure span

theorem within_copyWindow (destination : Nat) (bytes : ByteArray) (source : Word) (size : Nat) :
    Within op env (copyWindow destination bytes source size) := by
  simp only [copyWindow]
  split
  · exact within_pure ()
  · exact within_modifyFrame fun f => f.works_write _ _

theorem within_callDataLoad : Within op env callDataLoad := by
  refine within_bind within_ofStack fun offset => ?_
  refine within_frame fun f _ => ?_
  exact within_pushWord _

theorem within_copy (host : Host) (source : CopySource) :
    Within op env (copy host source) := by
  refine within_bind within_ofStack fun ⟨destination, offset, size⟩ => ?_
  refine within_bind (within_chargeCopy _ _ _) fun span => ?_
  refine within_frame fun f _ => ?_
  exact within_copyWindow _ _ _ _

theorem within_returnDataCopy (host : Host) : Within op env (returnDataCopy host) := by
  refine within_bind within_ofStack fun ⟨destination, offset, size⟩ => ?_
  refine within_frame fun f _ => ?_
  refine within_when (within_fail _) ?_
  refine within_bind (within_chargeCopy _ _ _) fun span => ?_
  exact within_copyWindow _ _ _ _

theorem within_extCodeCopy (host : Host) : Within op env (extCodeCopy host) := by
  refine within_bind within_ofStack fun ⟨account, destination, offset, size⟩ => ?_
  refine within_bind (within_chargeCopy _ _ _) fun span => ?_
  refine within_bind within_ledger fun l => ?_
  exact within_copyWindow _ _ _ _

theorem within_sha3 (host : Host) : Within op env (sha3 host) := by
  refine within_bind within_ofStack fun ⟨offset, size⟩ => ?_
  refine within_bind (within_chargeMemory _ _ _) fun span => ?_
  refine within_bind (within_spend _) fun _ => ?_
  refine within_frame fun f _ => ?_
  exact within_pushWord _

theorem within_mload (host : Host) : Within op env (mload host) := by
  refine within_bind within_ofStack fun offset => ?_
  refine within_bind (within_chargeMemory _ _ _) fun span => ?_
  refine within_frame fun f _ => ?_
  exact within_pushWord _

theorem within_mstore (host : Host) : Within op env (mstore host) := by
  refine within_bind within_ofStack fun ⟨offset, value⟩ => ?_
  refine within_bind (within_chargeMemory _ _ _) fun span => ?_
  exact within_modifyFrame fun f => f.works_write _ _

theorem within_mstore8 (host : Host) : Within op env (mstore8 host) := by
  refine within_bind within_ofStack fun ⟨offset, value⟩ => ?_
  refine within_bind (within_chargeMemory _ _ _) fun span => ?_
  exact within_modifyFrame fun f => f.works_write _ _

theorem within_sload : Within op env sload := by
  refine within_bind within_ofStack fun key => ?_
  refine within_bind (within_load key) fun value => ?_
  exact within_pushWord value

theorem within_store (key value : Word) : Within .sstore env (store key value) := by
  refine within_requireMutable fun mutable => ?_
  exact fun s hs => .of_change rfl (.store key value rfl (hs ▸ mutable))

theorem within_sstore (host : Host) : Within .sstore env (sstore host) := by
  refine within_requireMutable fun mutable => ?_
  refine within_bind within_ofStack fun ⟨key, value⟩ => ?_
  refine within_frame fun f _ => ?_
  refine within_when (within_fail _) ?_
  refine within_bind within_ledger fun l => ?_
  refine within_bind (within_spend _) fun _ => ?_
  refine within_bind (fun s hs => .of_change rfl (.refund _ rfl (hs ▸ mutable))) fun _ => ?_
  exact within_store key value

theorem within_log (host : Host) (topics : Fin 5) :
    Within (.log topics) env (log host topics.val) := by
  refine within_requireMutable fun mutable => ?_
  refine within_bind within_ofStack fun ⟨offset, size⟩ => ?_
  refine within_bind within_ofStack fun words => ?_
  refine within_bind (within_chargeMemory _ _ _) fun span => ?_
  refine within_bind (within_spend _) fun _ => ?_
  exact fun s hs => .of_change rfl (.log _ rfl (hs ▸ mutable))

theorem within_haltWithOutput (host : Host) (halt : Halt) :
    Within op env (haltWithOutput host halt) := by
  refine within_bind within_ofStack fun ⟨offset, size⟩ => ?_
  refine within_bind (within_chargeMemory _ _ _) fun span => ?_
  refine within_bind (within_modifyFrame fun f => f.works_output _) fun _ => ?_
  exact within_modifyFrame fun f => f.works_halted halt

theorem within_debit (mutable : env.isStatic = false) (amount : Word) :
    Within .selfDestruct env (onLedger (·.debit env.address amount)) := by
  rintro s rfl
  cases h : s.ledger.debit s.frame.env.address amount with
  | ok l => exact .of_change (a := ()) (by simp only [onLedger, h]) (.debit rfl mutable h)
  | error cause => exact .of_refusal (e := .state cause) rfl (by simp only [onLedger, h]) .refl

theorem within_credit (mutable : env.isStatic = false) (a : Address) (amount : Word) :
    Within .selfDestruct env (onLedger (·.credit a amount)) := by
  rintro s rfl
  cases h : s.ledger.credit a amount with
  | ok l => exact .of_change (a := ()) (by simp only [onLedger, h]) (.credit rfl mutable h)
  | error cause => exact .of_refusal (e := .state cause) rfl (by simp only [onLedger, h]) .refl

theorem within_selfDestruct (host : Host) :
    Within .selfDestruct env (selfDestruct host) := by
  refine within_requireMutable fun mutable => ?_
  refine within_bind within_ofStack fun word => ?_
  refine within_frame fun f entered => ?_
  refine within_bind within_ledger fun l => ?_
  refine within_when (within_spend _) ?_
  rw [entered]
  refine within_bind (fun s hs => ?_) fun _ => ?_
  · subst hs
    exact .of_change rfl (.destroy rfl mutable)
  dsimp only
  split
  · refine within_bind (within_debit mutable _) fun _ => ?_
    refine within_bind (within_credit mutable _ _) fun _ => ?_
    exact within_modifyFrame fun f => f.works_halted .stopped
  · exact within_modifyFrame fun f => f.works_halted .stopped

theorem within_create (host : Host) (scheme : CreateScheme) :
    Within op env (create host scheme) := by
  refine within_requireMutable fun _ => ?_
  refine within_bind within_ofStack fun ⟨value, offset, size⟩ => ?_
  refine within_bind ?_ fun salt => ?_
  · cases scheme with
    | byNonce => exact within_pure none
    | bySalt => exact within_bind within_ofStack fun salt => within_pure (some salt)
  refine within_bind (within_chargeMemory _ _ _) fun span => ?_
  refine within_when (within_spend _) ?_
  refine within_frame fun f _ => ?_
  refine within_bind (within_spend _) fun _ => ?_
  exact within_pure _

theorem within_forwarded (rules : Rules) (available : UInt64) (requested : Word) :
    Within op env (ofFrame fun f =>
      (Gas.forwarded rules available requested).map fun gas => (gas, f)) := by
  refine within_ofFrame fun f gas f' h => ?_
  cases sent : Gas.forwarded rules available requested with
  | error cause => simp [sent, Except.map] at h
  | ok amount =>
      simp only [sent, Except.map, Except.ok.injEq, Prod.mk.injEq] at h
      exact h.2 ▸ f.works_stack f.stack

theorem within_call (host : Host) (scheme : CallScheme) :
    Within op env (call host scheme) := by
  refine within_bind within_ofStack fun ⟨gas, callee⟩ => ?_
  refine within_bind ?_ fun value => ?_
  · simp only [valueOperand]
    split
    · exact within_ofStack
    · exact within_pure 0
  refine within_bind within_ofStack fun ⟨inOffset, inSize, outOffset, outSize⟩ => ?_
  refine within_when within_mutable ?_
  refine within_bind (within_chargeMemory _ _ _) fun input => ?_
  refine within_bind (within_chargeMemory _ _ _) fun output => ?_
  refine within_bind within_ledger fun l => ?_
  refine within_bind (within_spend _) fun _ => ?_
  refine within_frame fun f _ => ?_
  refine within_bind (within_forwarded _ _ _) fun forwarded => ?_
  refine within_bind (within_spend _) fun _ => ?_
  refine within_frame fun f _ => ?_
  exact within_pure _

end Instruction

open Instruction

theorem Opcode.within_perform (host : Host) (env : Environment) (op : Opcode) :
    Within op env (op.perform host) := by
  cases op with
  | stop =>
      refine within_bind (within_modifyFrame fun f => f.works_halted .stopped) fun _ => ?_
      exact within_pure _
  | unary | binary | ternary =>
      refine within_bind within_ofStack fun operands => ?_
      exact within_bind (within_pushWord _) fun _ => within_pure _
  | exp =>
      refine within_bind within_ofStack fun ⟨base, exponent⟩ => ?_
      refine within_bind (within_spend _) fun _ => ?_
      exact within_bind (within_pushWord _) fun _ => within_pure _
  | query =>
      refine within_frame fun f _ => ?_
      exact within_bind (within_pushWord _) fun _ => within_pure _
  | account =>
      refine within_bind within_ofStack fun a => ?_
      refine within_bind within_ledger fun l => ?_
      exact within_bind (within_pushWord _) fun _ => within_pure _
  | selfBalance =>
      refine within_bind within_ledger fun l => ?_
      refine within_frame fun f _ => ?_
      exact within_bind (within_pushWord _) fun _ => within_pure _
  | blockHash =>
      refine within_bind within_ofStack fun requested => ?_
      refine within_frame fun f _ => ?_
      exact within_bind (within_pushWord _) fun _ => within_pure _
  | sha3 => exact within_bind (within_sha3 host) fun _ => within_pure _
  | callDataLoad => exact within_bind within_callDataLoad fun _ => within_pure _
  | copy source => exact within_bind (within_copy host source) fun _ => within_pure _
  | returnDataCopy => exact within_bind (within_returnDataCopy host) fun _ => within_pure _
  | extCodeCopy => exact within_bind (within_extCodeCopy host) fun _ => within_pure _
  | pop => exact within_bind within_ofStack fun _ => within_pure _
  | mload => exact within_bind (within_mload host) fun _ => within_pure _
  | mstore => exact within_bind (within_mstore host) fun _ => within_pure _
  | mstore8 => exact within_bind (within_mstore8 host) fun _ => within_pure _
  | sload => exact within_bind within_sload fun _ => within_pure _
  | sstore => exact within_bind (within_sstore host) fun _ => within_pure _
  | jump =>
      refine within_bind within_ofStack fun destination => ?_
      refine within_bind (within_onFrame fun _ _ => Frame.works_jump) fun _ => ?_
      exact within_pure _
  | jumpIf =>
      refine within_bind within_ofStack fun ⟨destination, condition⟩ => ?_
      dsimp only
      split
      · exact within_pure _
      · refine within_bind (within_onFrame fun _ _ => Frame.works_jump) fun _ => ?_
        exact within_pure _
  | jumpDest => exact within_pure _
  | push n =>
      refine within_frame fun f _ => ?_
      refine within_bind (within_pushWord _) fun _ => ?_
      refine within_bind (within_modifyFrame fun f => f.works_advance _) fun _ => ?_
      exact within_pure _
  | dup | swap => exact within_bind within_onStack fun _ => within_pure _
  | log topics => exact within_bind (within_log host topics) fun _ => within_pure _
  | create scheme => exact within_bind (within_create host scheme) fun _ => within_pure _
  | call scheme => exact within_bind (within_call host scheme) fun _ => within_pure _
  | ret => exact within_bind (within_haltWithOutput host .stopped) fun _ => within_pure _
  | revert => exact within_bind (within_haltWithOutput host .reverted) fun _ => within_pure _
  | selfDestruct => exact within_bind (within_selfDestruct host) fun _ => within_pure _

theorem OpcodeEntry.within_dispatch (host : Host) (env : Environment) (entry : OpcodeEntry) :
    Within entry.opcode env (entry.dispatch host) := by
  refine within_frame fun f _ => ?_
  split
  · exact within_fail _
  · refine within_bind (within_spend _) fun _ => ?_
    exact entry.opcode.within_perform host env

namespace Focus

/-- A step, whether or not it fails, makes the changes of some instruction. -/
theorem step_moves (s : Focus) (host : Host) (fetched : Fetched) :
    ∃ op, Moves op s (endState (fun s => step s host fetched) s) := by
  cases fetched with
  | interrupted | endOfCode | illegal =>
      exact ⟨.stop, .single (.work (s.frame.works_halted _))⟩
  | instruction entry =>
      have moves := (entry.within_dispatch host s.frame.env s rfl).moves
      refine ⟨entry.opcode, ?_⟩
      cases h : entry.dispatch host s with
      | ok control s' =>
          rw [endState_ok h] at moves
          have run : step s host (.instruction entry) =
              .ok control (if control.advances then { s' with frame := s'.frame.advance 1 }
                else s') := by simp only [step, h]
          simp only [endState, run]
          split
          · exact moves.tail (.work (s'.frame.works_advance 1))
          · exact moves
      | error e s' =>
          rw [endState_error h] at moves
          cases e with
          | fault cause =>
              have run : step s host (.instruction entry) =
                  .ok .halted { s' with frame := s'.frame.halted (.faulted cause) } := by
                simp only [step, h]
              simp only [endState, run]
              exact moves.tail (.work (s'.frame.works_halted _))
          | state | intrinsicGas | config | run =>
              simpa only [endState, step, h] using moves

/-- A step ends the frame, or it is that of an instruction that succeeds, after which at most the
counter moves on. -/
theorem step_cases {s s' : Focus} {host : Host} {fetched : Fetched} {control : Control}
    (h : s.step host fetched = .ok control s') :
    (control = .halted ∧ s'.frame.isRunning = false) ∨
      ∃ entry t pc, fetched = .instruction entry ∧ entry.dispatch host s = .ok control t ∧
        s' = { t with frame := { t.frame with pc } } := by
  cases fetched with
  | interrupted | endOfCode | illegal =>
      cases h
      exact .inl ⟨rfl, s.frame.isRunning_halted (by simp)⟩
  | instruction entry =>
      simp only [step] at h
      split at h
      · next t ran =>
          cases h
          split
          · exact .inr ⟨entry, t, _, rfl, ran, rfl⟩
          · exact .inr ⟨entry, t, t.frame.pc, rfl, ran, rfl⟩
      · next t failed =>
          cases h
          exact .inl ⟨rfl, t.frame.isRunning_halted (by simp)⟩
      · cases h

theorem Keeps.of_step_ok {s s' : Focus} {host : Host} {fetched : Fetched} {control : Control}
    (h : s.step host fetched = .ok control s') : Keeps s s' := by
  obtain ⟨op, moves⟩ := s.step_moves host fetched
  simpa only [endState, h] using moves.keeps

theorem Keeps.of_step_error {s s' : Focus} {host : Host} {fetched : Fetched} {e : EngineError}
    (h : s.step host fetched = .error e s') : Keeps s s' := by
  obtain ⟨op, moves⟩ := s.step_moves host fetched
  simpa only [endState, h] using moves.keeps

end Focus
end EvmEngine
