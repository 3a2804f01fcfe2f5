import EvmEngine.Proofs.Exec.Counter
import EvmEngine.Proofs.Frame.Boundary
import EvmEngine.Proofs.Instruction.Table

/-!
How an instruction moves the counter of its frame. All of them leave it alone but the jumps and the
push, which goes over its operand; one that fails leaves it alone too. The step as a whole goes on
to the instruction that comes next in the code, or to a place that is marked for jumps.
-/

namespace EvmEngine

open Effects Exec

namespace Instruction

theorem steady_chargeCopy (gas : GasSchedule) (destination size : Word) :
    Steady (chargeCopy gas destination size) := by
  refine steady_bind (steady_chargeMemory gas destination size) fun span => ?_
  exact steady_bind (steady_spend _) fun _ => steady_pure span

theorem steady_copyWindow (destination : Nat) (bytes : ByteArray) (source : Word) (size : Nat) :
    Steady (copyWindow destination bytes source size) := by
  simp only [copyWindow]
  split
  · exact steady_pure ()
  · exact steady_modifyFrame fun f => ⟨rfl, rfl, rfl⟩

theorem steady_callDataLoad : Steady callDataLoad := by
  refine steady_bind steady_ofStack fun offset => ?_
  exact steady_bind steady_frame fun f => steady_pushWord _

theorem steady_copy (host : Host) (source : CopySource) : Steady (copy host source) := by
  refine steady_bind steady_ofStack fun ⟨destination, offset, size⟩ => ?_
  refine steady_bind (steady_chargeCopy _ _ _) fun span => ?_
  exact steady_bind steady_frame fun f => steady_copyWindow _ _ _ _

theorem steady_returnDataCopy (host : Host) : Steady (returnDataCopy host) := by
  refine steady_bind steady_ofStack fun ⟨destination, offset, size⟩ => ?_
  refine steady_bind steady_frame fun f => ?_
  refine steady_when (steady_fail _) ?_
  exact steady_bind (steady_chargeCopy _ _ _) fun span => steady_copyWindow _ _ _ _

theorem steady_extCodeCopy (host : Host) : Steady (extCodeCopy host) := by
  refine steady_bind steady_ofStack fun ⟨account, destination, offset, size⟩ => ?_
  refine steady_bind (steady_chargeCopy _ _ _) fun span => ?_
  exact steady_bind steady_ledger fun l => steady_copyWindow _ _ _ _

theorem steady_sha3 (host : Host) : Steady (sha3 host) := by
  refine steady_bind steady_ofStack fun ⟨offset, size⟩ => ?_
  refine steady_bind (steady_chargeMemory _ _ _) fun span => ?_
  refine steady_bind (steady_spend _) fun _ => ?_
  exact steady_bind steady_frame fun f => steady_pushWord _

theorem steady_mload (host : Host) : Steady (mload host) := by
  refine steady_bind steady_ofStack fun offset => ?_
  refine steady_bind (steady_chargeMemory _ _ _) fun span => ?_
  exact steady_bind steady_frame fun f => steady_pushWord _

theorem steady_mstore (host : Host) : Steady (mstore host) := by
  refine steady_bind steady_ofStack fun ⟨offset, value⟩ => ?_
  refine steady_bind (steady_chargeMemory _ _ _) fun span => ?_
  exact steady_modifyFrame fun f => ⟨rfl, rfl, rfl⟩

theorem steady_mstore8 (host : Host) : Steady (mstore8 host) := by
  refine steady_bind steady_ofStack fun ⟨offset, value⟩ => ?_
  refine steady_bind (steady_chargeMemory _ _ _) fun span => ?_
  exact steady_modifyFrame fun f => ⟨rfl, rfl, rfl⟩

theorem steady_sload : Steady sload := by
  refine steady_bind steady_ofStack fun key => ?_
  exact steady_bind (steady_load key) fun value => steady_pushWord value

theorem steady_sstore (host : Host) : Steady (sstore host) := by
  refine steady_bind steady_requireMutable fun _ => ?_
  refine steady_bind steady_ofStack fun ⟨key, value⟩ => ?_
  refine steady_bind steady_frame fun f => ?_
  refine steady_when (steady_fail _) ?_
  refine steady_bind steady_ledger fun l => ?_
  refine steady_bind (steady_spend _) fun _ => ?_
  refine steady_bind (steady_modifyFrame fun f => ⟨rfl, rfl, rfl⟩) fun _ => ?_
  exact steady_store key value

theorem steady_log (host : Host) (topics : Nat) : Steady (log host topics) := by
  refine steady_bind steady_requireMutable fun _ => ?_
  refine steady_bind steady_ofStack fun ⟨offset, size⟩ => ?_
  refine steady_bind steady_ofStack fun words => ?_
  refine steady_bind (steady_chargeMemory _ _ _) fun span => ?_
  refine steady_bind (steady_spend _) fun _ => ?_
  exact steady_modifyFrame fun f => ⟨rfl, rfl, rfl⟩

theorem steady_haltWithOutput (host : Host) (halt : Halt) : Steady (haltWithOutput host halt) := by
  refine steady_bind steady_ofStack fun ⟨offset, size⟩ => ?_
  refine steady_bind (steady_chargeMemory _ _ _) fun span => ?_
  refine steady_bind (steady_modifyFrame fun f => ⟨rfl, rfl, rfl⟩) fun _ => ?_
  exact steady_modifyFrame fun f => f.stays_halted halt

theorem steady_selfDestruct (host : Host) : Steady (selfDestruct host) := by
  refine steady_bind steady_requireMutable fun _ => ?_
  refine steady_bind steady_ofStack fun word => ?_
  refine steady_bind steady_frame fun f => ?_
  refine steady_bind steady_ledger fun l => ?_
  refine steady_when (steady_spend _) ?_
  refine steady_bind (steady_modifyFrame fun f => f.stays_recordDestroyed _) fun _ => ?_
  have ends := steady_modifyFrame fun f : Frame => f.stays_halted .stopped
  dsimp only
  split
  · refine steady_bind (steady_onLedger _) fun _ => ?_
    exact steady_bind (steady_onLedger _) fun _ => ends
  · exact ends

theorem steady_create (host : Host) (scheme : CreateScheme) : Steady (create host scheme) := by
  refine steady_bind steady_requireMutable fun _ => ?_
  refine steady_bind steady_ofStack fun ⟨value, offset, size⟩ => ?_
  refine steady_bind ?_ fun salt => ?_
  · cases scheme with
    | byNonce => exact steady_pure none
    | bySalt => exact steady_bind steady_ofStack fun salt => steady_pure (some salt)
  refine steady_bind (steady_chargeMemory _ _ _) fun span => ?_
  refine steady_when (steady_spend _) ?_
  refine steady_bind steady_frame fun f => ?_
  exact steady_bind (steady_spend _) fun _ => steady_pure _

theorem steady_forwarded (rules : Rules) (available : UInt64) (requested : Word) :
    Steady (ofFrame fun f =>
      (Gas.forwarded rules available requested).map fun gas => (gas, f)) := by
  refine steady_ofFrame fun f gas f' h => ?_
  cases sent : Gas.forwarded rules available requested with
  | error cause => simp [sent, Except.map] at h
  | ok amount =>
      simp only [sent, Except.map, Except.ok.injEq, Prod.mk.injEq] at h
      exact h.2 ▸ .refl f

theorem steady_call (host : Host) (scheme : CallScheme) : Steady (call host scheme) := by
  refine steady_bind steady_ofStack fun ⟨gas, callee⟩ => ?_
  refine steady_bind ?_ fun value => ?_
  · simp only [valueOperand]
    split
    · exact steady_ofStack
    · exact steady_pure 0
  refine steady_bind steady_ofStack fun ⟨inOffset, inSize, outOffset, outSize⟩ => ?_
  refine steady_when steady_requireMutable ?_
  refine steady_bind (steady_chargeMemory _ _ _) fun input => ?_
  refine steady_bind (steady_chargeMemory _ _ _) fun output => ?_
  refine steady_bind steady_ledger fun l => ?_
  refine steady_bind (steady_spend _) fun _ => ?_
  refine steady_bind steady_frame fun f => ?_
  refine steady_bind (steady_forwarded _ _ _) fun forwarded => ?_
  refine steady_bind (steady_spend _) fun _ => ?_
  exact steady_bind steady_frame fun f => steady_pure _

end Instruction

open Instruction

/-- How an instruction and what it answers leave the counter. -/
inductive Frame.Counts (f : Frame) : Opcode → Control → Frame → Prop
  | stays {op : Opcode} {control : Control} {f' : Frame} (bare : op.operandSize? = none)
      (stays : f.Stays f') : Counts f op control f'
  | skips {g f' : Frame} (n : Fin 32) (stays : f.Stays g) (moved : f' = g.advance (n.val + 1)) :
      Counts f (.push n) .next f'
  | jumps {op : Opcode} {g f' : Frame} {pc : Nat} (stays : f.Stays g)
      (marked : f.jumpDests.contains pc = true) (moved : f' = { g with pc }) :
      Counts f op .jumped f'

theorem Frame.Counts.after {f g f' : Frame} {op : Opcode} {control : Control}
    (before : f.Stays g) (counts : g.Counts op control f') : f.Counts op control f' := by
  cases counts with
  | stays bare stays => exact .stays bare (before.trans stays)
  | skips n stays moved => exact .skips n (before.trans stays) moved
  | jumps stays marked moved =>
      exact .jumps (before.trans stays) (before.jumpDests ▸ marked) moved

namespace Exec

/-- What an instruction does to the counter where it succeeds, and that it does nothing to it where
it fails. -/
def MovesCounter (op : Opcode) (x : Exec Control) : Prop :=
  ∀ s : Focus, Ensures x s (fun control s' => s.frame.Counts op control s'.frame)
    (fun _ s' => s.frame.Stays s'.frame)

theorem movesCounter_of_steady {op : Opcode} {x : Exec Control} (bare : op.operandSize? = none)
    (steady : Steady x) : MovesCounter op x := by
  intro s
  cases ran : x s with
  | ok control t => exact .of_ok ran (.stays bare (endState_ok ran ▸ steady s))
  | error e t => exact .of_error ran (endState_error ran ▸ steady s)

theorem movesCounter_after {α : Type} {op : Opcode} {x : Exec α} {f : α → Exec Control}
    (first : Steady x) (next : ∀ a, MovesCounter op (f a)) : MovesCounter op (x >>= f) := by
  intro s
  cases ran : x s with
  | error e t => exact .of_error (bind_of_error ran) (endState_error ran ▸ first s)
  | ok a t =>
      have before : s.frame.Stays t.frame := endState_ok ran ▸ first s
      exact .after ran ((next a t).mono (fun _ _ counts => counts.after before) fun _ _ =>
        before.trans)

theorem movesCounter_jump {op : Opcode} (destination : Word) :
    MovesCounter op (do
      onFrame (·.jump destination)
      return .jumped) := by
  intro s
  cases jumped : s.frame.jump destination with
  | error cause =>
      refine .of_error (e := .fault cause) (t := s) (bind_of_error ?_) (.refl _)
      simp only [onFrame, jumped]
  | ok f =>
      obtain ⟨pc, marked, moved⟩ := Frame.jump_ok jumped
      refine .of_ok (a := .jumped) (t := { s with frame := f }) (bind_of_ok (a := ()) ?_)
        (.jumps (.refl _) marked moved)
      simp only [onFrame, jumped]

end Exec

theorem Opcode.movesCounter_perform (host : Host) (op : Opcode) :
    MovesCounter op (op.perform host) := by
  have quiet {α : Type} {x : Exec α} {op : Opcode} (bare : op.operandSize? = none)
      (steady : Steady x) (control : α → Control) :
      MovesCounter op (x >>= fun a => pure (control a)) :=
    movesCounter_of_steady bare (steady_bind steady fun a => steady_pure _)
  cases op with
  | jump => exact movesCounter_after steady_ofStack movesCounter_jump
  | jumpIf =>
      refine movesCounter_after steady_ofStack fun ⟨destination, condition⟩ => ?_
      dsimp only
      split
      · exact movesCounter_of_steady rfl (steady_pure _)
      · exact movesCounter_jump destination
  | push n =>
      refine movesCounter_after steady_frame fun f => ?_
      refine movesCounter_after (steady_pushWord _) fun _ s => ?_
      exact .of_ok rfl (.skips n (.refl s.frame) rfl)
  | unary | binary | ternary =>
      refine movesCounter_after steady_ofStack fun operands => ?_
      exact quiet rfl (steady_pushWord _) _
  | exp =>
      refine movesCounter_after steady_ofStack fun ⟨base, exponent⟩ => ?_
      refine movesCounter_after (steady_spend _) fun _ => ?_
      exact quiet rfl (steady_pushWord _) _
  | query =>
      refine movesCounter_after steady_frame fun f => ?_
      exact quiet rfl (steady_pushWord _) _
  | account =>
      refine movesCounter_after steady_ofStack fun a => ?_
      refine movesCounter_after steady_ledger fun l => ?_
      exact quiet rfl (steady_pushWord _) _
  | selfBalance =>
      refine movesCounter_after steady_ledger fun l => ?_
      refine movesCounter_after steady_frame fun f => ?_
      exact quiet rfl (steady_pushWord _) _
  | blockHash =>
      refine movesCounter_after steady_ofStack fun requested => ?_
      refine movesCounter_after steady_frame fun f => ?_
      exact quiet rfl (steady_pushWord _) _
  | stop => exact quiet rfl (steady_modifyFrame fun f => f.stays_halted .stopped) _
  | jumpDest => exact movesCounter_of_steady rfl (steady_pure _)
  | sha3 => exact quiet rfl (steady_sha3 host) _
  | callDataLoad => exact quiet rfl steady_callDataLoad _
  | copy source => exact quiet rfl (steady_copy host source) _
  | returnDataCopy => exact quiet rfl (steady_returnDataCopy host) _
  | extCodeCopy => exact quiet rfl (steady_extCodeCopy host) _
  | pop => exact quiet rfl steady_ofStack _
  | mload => exact quiet rfl (steady_mload host) _
  | mstore => exact quiet rfl (steady_mstore host) _
  | mstore8 => exact quiet rfl (steady_mstore8 host) _
  | sload => exact quiet rfl steady_sload _
  | sstore => exact quiet rfl (steady_sstore host) _
  | dup | swap => exact quiet rfl steady_onStack _
  | log topics => exact quiet rfl (steady_log host topics.val) _
  | create scheme => exact quiet rfl (steady_create host scheme) _
  | call scheme => exact quiet rfl (steady_call host scheme) _
  | ret => exact quiet rfl (steady_haltWithOutput host .stopped) _
  | revert => exact quiet rfl (steady_haltWithOutput host .reverted) _
  | selfDestruct => exact quiet rfl (steady_selfDestruct host) _

theorem OpcodeEntry.movesCounter_dispatch (host : Host) (entry : OpcodeEntry) :
    MovesCounter entry.opcode (entry.dispatch host) := by
  refine movesCounter_after steady_frame fun f => ?_
  cases f.stack.require entry.inputs entry.outputs with
  | error cause => exact fun s => .of_error rfl (.refl s.frame)
  | ok => exact movesCounter_after (steady_spend _) fun _ => entry.opcode.movesCounter_perform host

/-- Where a step leaves the counter: in its place, at the instruction that comes next, or at a place
that is marked for jumps. -/
structure Frame.Proceeds (f f' : Frame) : Prop where
  code : f'.code = f.code
  jumpDests : f'.jumpDests = f.jumpDests
  pc : f'.pc = f.pc ∨ f.jumpDests.contains f'.pc = true ∨
    ∃ byte, f.code[f.pc]? = some byte ∧
      f'.pc = min (f.pc + 1 + (pushSize? byte).getD 0) (UInt64.size - 1)

theorem Frame.Stays.proceeds {f f' : Frame} (h : f.Stays f') : f.Proceeds f' :=
  ⟨h.code, h.jumpDests, .inl h.pc⟩

theorem Frame.Counts.proceeds {f f' : Frame} {op : Opcode} {control : Control} {byte : UInt8}
    (h : f.Counts op control f') (here : f.code[f.pc]? = some byte)
    (operand : pushSize? byte = op.operandSize?) :
    f.Proceeds (if control.advances then f'.advance 1 else f') := by
  cases h with
  | stays bare stays =>
      split
      · refine ⟨stays.code, stays.jumpDests, .inr (.inr ⟨byte, here, ?_⟩)⟩
        rw [operand, bare, Frame.advance, stays.pc]
        rfl
      · exact stays.proceeds
  | skips n stays moved =>
      subst moved
      refine ⟨stays.code, stays.jumpDests, .inr (.inr ⟨byte, here, ?_⟩)⟩
      simp only [operand, Opcode.operandSize?, Control.advances, if_true, Frame.advance, stays.pc,
        Option.getD_some]
      omega
  | jumps stays marked moved =>
      subst moved
      exact ⟨stays.code, stays.jumpDests, .inr (.inl marked)⟩

namespace Focus

theorem step_proceeds {s s' : Focus} {host : Host} {interrupted : Bool} {control : Control}
    (h : s.step host (s.frame.fetch host interrupted) = .ok control s') :
    s.frame.Proceeds s'.frame := by
  cases fetched : s.frame.fetch host interrupted with
  | interrupted | endOfCode | illegal =>
      rw [fetched] at h
      cases h
      exact (s.frame.stays_halted _).proceeds
  | instruction entry =>
      rw [fetched] at h
      obtain ⟨byte, here, named⟩ := Frame.byte_of_fetch fetched
      have counts := entry.movesCounter_dispatch host s
      simp only [step] at h
      split at h
      · next t ran =>
          cases h
          rw [apply_ite Focus.frame]
          exact (counts.ok ran).proceeds here (Opcode.pushSize?_of_ofByte? named)
      · next t failed =>
          cases h
          exact ((counts.error failed).trans (t.frame.stays_halted _)).proceeds
      · cases h

end Focus
end EvmEngine
