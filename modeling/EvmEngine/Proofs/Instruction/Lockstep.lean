import EvmEngine.Machine
import EvmEngine.Proofs.Exec.Lockstep

/-!
Each instruction does the same in two states that differ only in ledgers which agree in all that can
be read, even where the hosts have different block hashes, as long as they answer alike for the
present block.
-/

namespace EvmEngine

open Effects Exec Focus Ledger

namespace Host

/-- The same host with other block hashes. -/
def withHashes (host : Host) (hashes : UInt64 → Option Hash) : Host :=
  { host with blockHash := hashes }

/-- Other block hashes make no difference to what can be asked for in a block. -/
def AgreesOn (host : Host) (hashes : UInt64 → Option Hash) (block : Block) : Prop :=
  ∀ requested, Instruction.blockHashAt (host.withHashes hashes) block.number requested =
    Instruction.blockHashAt host block.number requested

end Host

namespace Instruction

section
variable {block : Block} {R : Ledger → Ledger → Prop}

theorem lockstep_chargeCopy (gas : GasSchedule) (destination size : Word) :
    Lockstep block R (chargeCopy gas destination size) (chargeCopy gas destination size) := by
  refine lockstep_bind (lockstep_chargeMemory gas destination size) fun span => ?_
  refine lockstep_bind (lockstep_spend _) fun _ => ?_
  exact lockstep_pure span

theorem lockstep_copyWindow (destination : Nat) (bytes : ByteArray) (source : Word) (size : Nat) :
    Lockstep block R (copyWindow destination bytes source size)
      (copyWindow destination bytes source size) := by
  simp only [copyWindow]
  split
  · exact lockstep_pure ()
  · exact lockstep_modifyFrame fun _ => rfl

theorem lockstep_callDataLoad : Lockstep block R callDataLoad callDataLoad := by
  refine lockstep_bind (lockstep_ofStack _) fun offset => ?_
  refine lockstep_frame fun f _ => ?_
  exact lockstep_pushWord _

theorem lockstep_copy (host : Host) (source : CopySource) :
    Lockstep block R (copy host source) (copy host source) := by
  refine lockstep_bind (lockstep_ofStack _) fun ⟨destination, offset, size⟩ => ?_
  refine lockstep_bind (lockstep_chargeCopy _ _ _) fun span => ?_
  refine lockstep_frame fun f _ => ?_
  exact lockstep_copyWindow _ _ _ _

theorem lockstep_returnDataCopy (host : Host) :
    Lockstep block R (returnDataCopy host) (returnDataCopy host) := by
  refine lockstep_bind (lockstep_ofStack _) fun ⟨destination, offset, size⟩ => ?_
  refine lockstep_frame fun f _ => ?_
  refine lockstep_when (lockstep_fail _) ?_
  refine lockstep_bind (lockstep_chargeCopy _ _ _) fun span => ?_
  exact lockstep_copyWindow _ _ _ _

theorem lockstep_sha3 (host : Host) : Lockstep block R (sha3 host) (sha3 host) := by
  refine lockstep_bind (lockstep_ofStack _) fun ⟨offset, size⟩ => ?_
  refine lockstep_bind (lockstep_chargeMemory _ _ _) fun span => ?_
  refine lockstep_bind (lockstep_spend _) fun _ => ?_
  refine lockstep_frame fun f _ => ?_
  exact lockstep_pushWord _

theorem lockstep_mload (host : Host) : Lockstep block R (mload host) (mload host) := by
  refine lockstep_bind (lockstep_ofStack _) fun offset => ?_
  refine lockstep_bind (lockstep_chargeMemory _ _ _) fun span => ?_
  refine lockstep_frame fun f _ => ?_
  exact lockstep_pushWord _

theorem lockstep_mstore (host : Host) : Lockstep block R (mstore host) (mstore host) := by
  refine lockstep_bind (lockstep_ofStack _) fun ⟨offset, value⟩ => ?_
  refine lockstep_bind (lockstep_chargeMemory _ _ _) fun span => ?_
  exact lockstep_modifyFrame fun _ => rfl

theorem lockstep_mstore8 (host : Host) : Lockstep block R (mstore8 host) (mstore8 host) := by
  refine lockstep_bind (lockstep_ofStack _) fun ⟨offset, value⟩ => ?_
  refine lockstep_bind (lockstep_chargeMemory _ _ _) fun span => ?_
  exact lockstep_modifyFrame fun _ => rfl

theorem lockstep_log (host : Host) (topics : Nat) :
    Lockstep block R (log host topics) (log host topics) := by
  refine lockstep_bind lockstep_requireMutable fun _ => ?_
  refine lockstep_bind (lockstep_ofStack _) fun ⟨offset, size⟩ => ?_
  refine lockstep_bind (lockstep_ofStack _) fun words => ?_
  refine lockstep_bind (lockstep_chargeMemory _ _ _) fun span => ?_
  refine lockstep_bind (lockstep_spend _) fun _ => ?_
  exact lockstep_modifyFrame fun _ => rfl

theorem lockstep_halt (halt : Halt) :
    Lockstep block R (modifyFrame (·.halted halt)) (modifyFrame (·.halted halt)) :=
  lockstep_modifyFrame fun f => (f.works_halted halt).env

theorem lockstep_haltWithOutput (host : Host) (halt : Halt) :
    Lockstep block R (haltWithOutput host halt) (haltWithOutput host halt) := by
  refine lockstep_bind (lockstep_ofStack _) fun ⟨offset, size⟩ => ?_
  refine lockstep_bind (lockstep_chargeMemory _ _ _) fun span => ?_
  refine lockstep_bind (lockstep_modifyFrame fun _ => rfl) fun _ => ?_
  exact lockstep_halt halt

theorem lockstep_create (host : Host) (scheme : CreateScheme) :
    Lockstep block R (create host scheme) (create host scheme) := by
  refine lockstep_bind lockstep_requireMutable fun _ => ?_
  refine lockstep_bind (lockstep_ofStack _) fun ⟨value, offset, size⟩ => ?_
  refine lockstep_bind ?_ fun salt => ?_
  · cases scheme with
    | byNonce => exact lockstep_pure none
    | bySalt =>
        exact lockstep_bind (lockstep_ofStack _) fun salt => lockstep_pure (some salt)
  refine lockstep_bind (lockstep_chargeMemory _ _ _) fun span => ?_
  refine lockstep_when (lockstep_spend _) ?_
  refine lockstep_frame fun f _ => ?_
  refine lockstep_bind (lockstep_spend _) fun _ => ?_
  exact lockstep_pure _

theorem lockstep_forwarded (rules : Rules) (available : UInt64) (requested : Word) :
    Lockstep block R
      (ofFrame fun f => (Gas.forwarded rules available requested).map fun gas => (gas, f))
      (ofFrame fun f => (Gas.forwarded rules available requested).map fun gas => (gas, f)) := by
  refine lockstep_ofFrame fun f gas f' h => ?_
  cases sent : Gas.forwarded rules available requested with
  | error cause => simp [sent, Except.map] at h
  | ok amount =>
      simp only [sent, Except.map, Except.ok.injEq, Prod.mk.injEq] at h
      rw [h.2]

end

section
variable {block : Block} {host : Host} {R : Nat → Ledger → Ledger → Prop} {n : Nat}
  {l l' : Ledger}

theorem lockstep_extCodeCopy (bisim : Bisimulation host.rules R) :
    Lockstep block (R n) (extCodeCopy host) (extCodeCopy host) := by
  refine lockstep_bind (lockstep_ofStack _) fun ⟨account, destination, offset, size⟩ => ?_
  refine lockstep_bind (lockstep_chargeCopy _ _ _) fun span => ?_
  refine lockstep_ledger fun l l' related => ?_
  rw [bisim.code related]
  exact lockstep_copyWindow _ _ _ _

theorem lockstep_sload (bisim : Bisimulation host.rules R) :
    Lockstep block (R n) sload sload := by
  refine lockstep_bind (lockstep_ofStack _) fun key => ?_
  refine lockstep_bind (lockstep_load bisim key) fun value => ?_
  exact lockstep_pushWord value

/-- The price of a write only looks at the initial value where it is metered net. -/
theorem sstoreCost_congr (bisim : Bisimulation host.rules R) (related : R n l l') (a : Address)
    (key value : Word) :
    Gas.sstoreCost host.rules (l'.initialValue a key) (l'.load a key) value =
      Gas.sstoreCost host.rules (l.initialValue a key) (l.load a key) value := by
  rw [bisim.load related]
  by_cases legacy : host.rules.sstoreMetering = .legacy
  · simp only [Gas.sstoreCost, legacy]
  · rw [bisim.initialValue related legacy]

theorem lockstep_sstore (bisim : Bisimulation host.rules R) :
    Lockstep block (R n) (sstore host) (sstore host) := by
  refine lockstep_bind lockstep_requireMutable fun _ => ?_
  refine lockstep_bind (lockstep_ofStack _) fun ⟨key, value⟩ => ?_
  refine lockstep_frame fun f _ => ?_
  refine lockstep_when (lockstep_fail _) ?_
  refine lockstep_ledger fun l l' related => ?_
  dsimp only
  rw [sstoreCost_congr bisim related]
  refine lockstep_bind (lockstep_spend _) fun _ => ?_
  refine lockstep_bind (lockstep_modifyFrame fun _ => rfl) fun _ => ?_
  exact lockstep_store bisim key value

theorem lockstep_selfDestruct (bisim : Bisimulation host.rules R) :
    Lockstep block (R n) (selfDestruct host) (selfDestruct host) := by
  refine lockstep_bind lockstep_requireMutable fun _ => ?_
  refine lockstep_bind (lockstep_ofStack _) fun word => ?_
  refine lockstep_frame fun f _ => ?_
  refine lockstep_ledger fun l l' related => ?_
  have created (balance : Word) (a : Address) :
      createsBeneficiary host.rules l' balance a = createsBeneficiary host.rules l balance a := by
    simp only [createsBeneficiary, bisim.isEmpty related, bisim.hasAccount related]
  dsimp only
  rw [bisim.balance related, created]
  refine lockstep_when (lockstep_spend _) ?_
  refine lockstep_bind (lockstep_modifyFrame fun f => ?_) fun _ => ?_
  · simp only [Frame.recordDestroyed]
    split <;> rfl
  split
  · refine lockstep_bind (lockstep_onLedger fun _ _ related => bisim.debit related _ _) fun _ => ?_
    refine lockstep_bind (lockstep_onLedger fun _ _ related => bisim.credit related _ _) fun _ => ?_
    exact lockstep_halt .stopped
  · exact lockstep_halt .stopped

theorem callSurcharge_congr (bisim : Bisimulation host.rules R) (related : R n l l')
    (scheme : CallScheme) (transfersValue : Bool) (callee : Address) :
    callSurcharge host.rules l' scheme transfersValue callee =
      callSurcharge host.rules l scheme transfersValue callee := by
  have created : createsCallee host.rules l' transfersValue callee =
      createsCallee host.rules l transfersValue callee := by
    simp only [createsCallee, bisim.isEmpty related, bisim.hasAccount related]
  rw [callSurcharge, created]
  rfl

theorem lockstep_call (bisim : Bisimulation host.rules R) (scheme : CallScheme) :
    Lockstep block (R n) (call host scheme) (call host scheme) := by
  refine lockstep_bind (lockstep_ofStack _) fun ⟨gas, callee⟩ => ?_
  refine lockstep_bind ?_ fun value => ?_
  · simp only [valueOperand]
    split
    · exact lockstep_ofStack _
    · exact lockstep_pure 0
  refine lockstep_bind (lockstep_ofStack _) fun ⟨inOffset, inSize, outOffset, outSize⟩ => ?_
  refine lockstep_when lockstep_requireMutable ?_
  refine lockstep_bind (lockstep_chargeMemory _ _ _) fun input => ?_
  refine lockstep_bind (lockstep_chargeMemory _ _ _) fun output => ?_
  refine lockstep_ledger fun l l' related => ?_
  rw [callSurcharge_congr bisim related]
  refine lockstep_bind (lockstep_spend _) fun _ => ?_
  refine lockstep_frame fun f _ => ?_
  refine lockstep_bind (lockstep_forwarded _ _ _) fun forwarded => ?_
  refine lockstep_bind (lockstep_spend _) fun _ => ?_
  refine lockstep_frame fun f _ => ?_
  exact lockstep_pure _

end
end Instruction

open Instruction

section
variable {block : Block} {host : Host} {hashes : UInt64 → Option Hash}
  {R : Nat → Ledger → Ledger → Prop} {n : Nat}

theorem Opcode.lockstep_perform (bisim : Bisimulation host.rules R)
    (agree : host.AgreesOn hashes block) (op : Opcode) :
    Lockstep block (R n) (op.perform host) (op.perform (host.withHashes hashes)) := by
  cases op with
  | stop => exact lockstep_bind (lockstep_halt .stopped) fun _ => lockstep_pure _
  | unary | binary | ternary =>
      refine lockstep_bind (lockstep_ofStack _) fun operands => ?_
      exact lockstep_bind (lockstep_pushWord _) fun _ => lockstep_pure _
  | exp =>
      refine lockstep_bind (lockstep_ofStack _) fun ⟨base, exponent⟩ => ?_
      refine lockstep_bind (lockstep_spend _) fun _ => ?_
      exact lockstep_bind (lockstep_pushWord _) fun _ => lockstep_pure _
  | query =>
      refine lockstep_frame fun f _ => ?_
      exact lockstep_bind (lockstep_pushWord _) fun _ => lockstep_pure _
  | account what =>
      refine lockstep_bind (lockstep_ofStack _) fun a => ?_
      refine lockstep_ledger fun l l' related => ?_
      have same : what.answer l' a.toAddress = what.answer l a.toAddress := by
        cases what <;>
          simp only [AccountQuery.answer, bisim.balance related, bisim.code related,
            bisim.isEmpty related, bisim.codeHash related]
      rw [same]
      exact lockstep_bind (lockstep_pushWord _) fun _ => lockstep_pure _
  | selfBalance =>
      refine lockstep_ledger fun l l' related => ?_
      refine lockstep_frame fun f _ => ?_
      rw [bisim.balance related]
      exact lockstep_bind (lockstep_pushWord _) fun _ => lockstep_pure _
  | blockHash =>
      refine lockstep_bind (lockstep_ofStack _) fun requested => ?_
      refine lockstep_frame fun f inBlock => ?_
      rw [inBlock, agree]
      exact lockstep_bind (lockstep_pushWord _) fun _ => lockstep_pure _
  | sha3 => exact lockstep_bind (lockstep_sha3 host) fun _ => lockstep_pure _
  | callDataLoad => exact lockstep_bind lockstep_callDataLoad fun _ => lockstep_pure _
  | copy source => exact lockstep_bind (lockstep_copy host source) fun _ => lockstep_pure _
  | returnDataCopy => exact lockstep_bind (lockstep_returnDataCopy host) fun _ => lockstep_pure _
  | extCodeCopy => exact lockstep_bind (lockstep_extCodeCopy bisim) fun _ => lockstep_pure _
  | pop => exact lockstep_bind (lockstep_ofStack _) fun _ => lockstep_pure _
  | mload => exact lockstep_bind (lockstep_mload host) fun _ => lockstep_pure _
  | mstore => exact lockstep_bind (lockstep_mstore host) fun _ => lockstep_pure _
  | mstore8 => exact lockstep_bind (lockstep_mstore8 host) fun _ => lockstep_pure _
  | sload => exact lockstep_bind (lockstep_sload bisim) fun _ => lockstep_pure _
  | sstore => exact lockstep_bind (lockstep_sstore bisim) fun _ => lockstep_pure _
  | jump =>
      refine lockstep_bind (lockstep_ofStack _) fun destination => ?_
      refine lockstep_bind (lockstep_onFrame fun _ _ jumped => ?_) fun _ => lockstep_pure _
      exact (Frame.works_jump jumped).env
  | jumpIf =>
      refine lockstep_bind (lockstep_ofStack _) fun ⟨destination, condition⟩ => ?_
      dsimp only
      split
      · exact lockstep_pure _
      · refine lockstep_bind (lockstep_onFrame fun _ _ jumped => ?_) fun _ => lockstep_pure _
        exact (Frame.works_jump jumped).env
  | jumpDest => exact lockstep_pure _
  | push n =>
      refine lockstep_frame fun f _ => ?_
      refine lockstep_bind (lockstep_pushWord _) fun _ => ?_
      exact lockstep_bind (lockstep_modifyFrame fun _ => rfl) fun _ => lockstep_pure _
  | dup | swap => exact lockstep_bind (lockstep_onStack _) fun _ => lockstep_pure _
  | log topics => exact lockstep_bind (lockstep_log host _) fun _ => lockstep_pure _
  | create scheme => exact lockstep_bind (lockstep_create host scheme) fun _ => lockstep_pure _
  | call scheme => exact lockstep_bind (lockstep_call bisim scheme) fun _ => lockstep_pure _
  | ret => exact lockstep_bind (lockstep_haltWithOutput host .stopped) fun _ => lockstep_pure _
  | revert => exact lockstep_bind (lockstep_haltWithOutput host .reverted) fun _ => lockstep_pure _
  | selfDestruct => exact lockstep_bind (lockstep_selfDestruct bisim) fun _ => lockstep_pure _

theorem OpcodeEntry.lockstep_dispatch (bisim : Bisimulation host.rules R)
    (agree : host.AgreesOn hashes block) (entry : OpcodeEntry) :
    Lockstep block (R n) (entry.dispatch host) (entry.dispatch (host.withHashes hashes)) := by
  refine lockstep_frame fun f _ => ?_
  split
  · exact lockstep_fail _
  · refine lockstep_bind (lockstep_spend _) fun _ => ?_
    exact entry.opcode.lockstep_perform bisim agree

/-- A step does the same in twin states, also one that fails. -/
theorem Focus.step_parallel (bisim : Bisimulation host.rules R)
    (agree : host.AgreesOn hashes block) (fetched : Fetched) {s t : Focus}
    (twins : Twins block (R n) s t) :
    Same (Twins block (R n)) (s.step host fetched) (t.step (host.withHashes hashes) fetched) := by
  have changed {s t : Focus} (twins : Twins block (R n) s t) {f : Frame → Frame}
      (env : ∀ g, (f g).env = g.env) :
      Twins block (R n) { s with frame := f s.frame } { t with frame := f t.frame } :=
    ⟨congrArg f twins.frame, (congrArg _ (env s.frame)).trans twins.block, twins.ledger⟩
  have ended {s t : Focus} (twins : Twins block (R n) s t) (halt : Halt) :=
    changed twins (f := (·.halted halt)) fun g => (g.works_halted halt).env
  cases fetched with
  | interrupted | endOfCode | illegal => exact .ok (ended twins _)
  | instruction entry =>
      have both := entry.lockstep_dispatch bisim agree s t twins
      simp only [step]
      generalize entry.dispatch host s = r, entry.dispatch (host.withHashes hashes) t = r' at both
      cases both with
      | ok related =>
          refine .ok ?_
          split
          · exact changed related (f := (·.advance 1)) fun _ => rfl
          · exact related
      | @error e _ _ related =>
          cases e with
          | fault cause => exact .ok (ended related _)
          | state | intrinsicGas | config | run => exact .error related

end
end EvmEngine
