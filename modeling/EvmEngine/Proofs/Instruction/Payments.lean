import EvmEngine.Machine
import EvmEngine.Proofs.Bytes
import EvmEngine.Proofs.Exec.Payments

/-!
Each instruction pays for memory by charges alone, also where it fails halfway. What it writes lies in
the span it has been charged for, so that the write does not make memory grow; and what it pays
for memory comes on top of the gas that it lends to the frame it asks for.
-/

namespace EvmEngine

open Effects Exec Payment

/-- The gas that goes with what an instruction asks for. -/
def Control.lent : Control → UInt64
  | .call r => r.gas
  | .create r => r.gas
  | .next | .jumped | .halted => 0

namespace Instruction

variable {schedule : GasSchedule} {host : Host} {s : Focus}

/-- A write into a span that memory covers. -/
theorem settles_write {offset length : Nat} {data : ByteArray}
    (covers : s.frame.memory.Covers offset length) (fits : data.size ≤ length) :
    Settles schedule (modifyFrame fun f => { f with memory := f.memory.write offset data }) s
      fun _ _ _ => True :=
  ⟨[], .idle rfl (covers.size_write fits), fun _ _ _ => trivial⟩

theorem settles_copyWindow {offset length : Nat} (covers : s.frame.memory.Covers offset length)
    (bytes : ByteArray) (source : Word) :
    Settles schedule (copyWindow offset bytes source length) s fun _ _ _ => True := by
  simp only [copyWindow]
  split
  · exact (plain_pure ()).bills s
  · exact settles_write covers (Nat.le_of_eq (Bytes.size_window _ _ _))

theorem settles_chargeCopy (destination size : Word) (s : Focus) :
    Settles schedule (chargeCopy schedule destination size) s fun _ span t =>
      t.frame.memory.Covers span.1 span.2 := by
  refine (settles_chargeMemory destination size s).bind fun _ span t ⟨_, _, covers⟩ => ?_
  refine (settles_spend _ t).bind fun _ _ u ⟨_, memory⟩ => ?_
  refine ((plain_pure span).settles u).mono ?_
  rintro _ _ _ ⟨-, run⟩
  obtain ⟨rfl, rfl⟩ := pure_eq_ok.mp run
  rwa [memory]

theorem plain_callDataLoad : Plain schedule callDataLoad := by
  refine plain_bind (plain_ofStack _) fun offset => ?_
  refine plain_bind plain_frame fun f => ?_
  exact plain_pushWord _

theorem bills_copy (source : CopySource) : Bills host.rules.gas (copy host source) := by
  refine bills_bind (plain_ofStack _).bills fun ⟨destination, offset, size⟩ s => ?_
  refine (settles_chargeCopy destination size s).bind fun _ span t covers => ?_
  refine plain_frame.before fun f u read => ?_
  obtain ⟨-, rfl⟩ := frame_eq_ok.mp read
  exact settles_copyWindow covers _ _

theorem bills_returnDataCopy : Bills host.rules.gas (returnDataCopy host) := by
  refine bills_bind (plain_ofStack _).bills fun ⟨destination, offset, size⟩ => ?_
  refine bills_bind plain_frame.bills fun f => ?_
  refine bills_when (plain_fail _).bills fun s => ?_
  refine (settles_chargeCopy destination size s).bind fun _ span t covers => ?_
  exact settles_copyWindow covers _ _

theorem bills_extCodeCopy : Bills host.rules.gas (extCodeCopy host) := by
  refine bills_bind (plain_ofStack _).bills fun ⟨account, destination, offset, size⟩ s => ?_
  refine (settles_chargeCopy destination size s).bind fun _ span t covers => ?_
  refine plain_ledger.before fun l u read => ?_
  obtain ⟨-, rfl⟩ := ledger_eq_ok.mp read
  exact settles_copyWindow covers _ _

theorem bills_sha3 : Bills host.rules.gas (sha3 host) := by
  refine bills_bind (plain_ofStack _).bills fun ⟨offset, size⟩ => ?_
  refine bills_bind (bills_chargeMemory _ _) fun span => ?_
  refine bills_bind (plain_spend _).bills fun _ => ?_
  refine bills_bind plain_frame.bills fun f => ?_
  exact (plain_pushWord _).bills

theorem bills_mload : Bills host.rules.gas (mload host) := by
  refine bills_bind (plain_ofStack _).bills fun offset => ?_
  refine bills_bind (bills_chargeMemory _ _) fun span => ?_
  refine bills_bind plain_frame.bills fun f => ?_
  exact (plain_pushWord _).bills

theorem bills_mstore : Bills host.rules.gas (mstore host) := by
  refine bills_bind (plain_ofStack _).bills fun ⟨offset, value⟩ s => ?_
  refine (settles_chargeMemory offset 32 s).bind fun _ span t ⟨_, same, covers⟩ => ?_
  subst same
  exact settles_write covers (Nat.le_of_eq value.size_toBytes)

theorem bills_mstore8 : Bills host.rules.gas (mstore8 host) := by
  refine bills_bind (plain_ofStack _).bills fun ⟨offset, value⟩ s => ?_
  refine (settles_chargeMemory offset 1 s).bind fun _ span t ⟨_, same, covers⟩ => ?_
  subst same
  exact settles_write covers (Nat.le_refl 1)

theorem plain_sload : Plain schedule sload := by
  refine plain_bind (plain_ofStack _) fun key => ?_
  refine plain_bind (plain_load key) fun value => ?_
  exact plain_pushWord value

theorem plain_store (key value : Word) : Plain schedule (store key value) := by
  refine plain_bind plain_requireMutable fun _ => ?_
  refine plain_bind plain_frame fun f => ?_
  exact plain_modifyLedger _

theorem plain_sstore : Plain schedule (sstore host) := by
  refine plain_bind plain_requireMutable fun _ => ?_
  refine plain_bind (plain_ofStack _) fun ⟨key, value⟩ => ?_
  refine plain_bind plain_frame fun f => ?_
  refine plain_when (plain_fail _) ?_
  refine plain_bind plain_ledger fun l => ?_
  refine plain_bind (plain_spend _) fun _ => ?_
  refine plain_bind (plain_modifyFrame (fun _ => rfl) fun _ => rfl) fun _ => ?_
  exact plain_store key value

theorem bills_log (topics : Nat) : Bills host.rules.gas (log host topics) := by
  refine bills_bind plain_requireMutable.bills fun _ => ?_
  refine bills_bind (plain_ofStack _).bills fun ⟨offset, size⟩ => ?_
  refine bills_bind (plain_ofStack _).bills fun words => ?_
  refine bills_bind (bills_chargeMemory _ _) fun span => ?_
  refine bills_bind (plain_spend _).bills fun _ => ?_
  exact Plain.bills (plain_modifyFrame (fun _ => rfl) fun _ => rfl)

theorem bills_haltWithOutput (halt : Halt) : Bills host.rules.gas (haltWithOutput host halt) := by
  refine bills_bind (plain_ofStack _).bills fun ⟨offset, size⟩ => ?_
  refine bills_bind (bills_chargeMemory _ _) fun span => ?_
  refine bills_bind (Plain.bills (plain_modifyFrame (fun _ => rfl) fun _ => rfl)) fun _ => ?_
  exact (plain_halted halt).bills

theorem plain_recordDestroyed (a : Address) :
    Plain schedule (modifyFrame (·.recordDestroyed a)) := by
  refine plain_modifyFrame (fun f => ?_) fun f => ?_ <;> simp only [Frame.recordDestroyed] <;>
    split <;> rfl

theorem plain_selfDestruct : Plain schedule (selfDestruct host) := by
  refine plain_bind plain_requireMutable fun _ => ?_
  refine plain_bind (plain_ofStack _) fun word => ?_
  refine plain_bind plain_frame fun f => ?_
  refine plain_bind plain_ledger fun l => ?_
  refine plain_when (plain_spend _) ?_
  refine plain_bind (plain_recordDestroyed _) fun _ => ?_
  dsimp only
  split
  · refine plain_bind (plain_onLedger _) fun _ => ?_
    refine plain_bind (plain_onLedger _) fun _ => ?_
    exact plain_halted .stopped
  · exact plain_halted .stopped

theorem plain_forwarded (rules : Rules) (available : UInt64) (requested : Word) :
    Plain schedule (ofFrame fun f =>
      (Gas.forwarded rules available requested).map fun gas => (gas, f)) := by
  refine plain_of_reads fun s => ?_
  simp only [endState, ofFrame]
  cases Gas.forwarded rules available requested <;> rfl

theorem plain_saltOperand (scheme : CreateScheme) : Plain schedule (saltOperand scheme) := by
  cases scheme with
  | byNonce => exact plain_pure none
  | bySalt => exact plain_bind (plain_ofStack _) fun salt => plain_pure (some salt)

theorem plain_valueOperand (scheme : CallScheme) : Plain schedule (valueOperand scheme) := by
  simp only [valueOperand]
  split
  · exact plain_ofStack _
  · exact plain_pure 0

section
variable (covered : ∀ l scheme carries callee,
  (stipend host.rules.gas carries).toNat ≤
    (callSurcharge host.rules l scheme carries callee).toNat)
include covered

/-- A call takes from its frame what it pays for memory and all that it lends: the gas it forwards,
and the stipend, which the surcharge covers. -/
theorem settles_requestCall (scheme : CallScheme) (operands : CallOperands) (value : Word)
    (carries : Bool) (s : Focus) :
    Settles host.rules.gas (requestCall host scheme operands value carries) s
      fun payments r t =>
        t.frame.gas.toNat + total payments + r.gas.toNat ≤ s.frame.gas.toNat := by
  refine (settles_chargeMemory _ _ s).bind fun input _ t₁ ⟨paid₁, _⟩ => ?_
  refine (settles_chargeMemory _ _ t₁).bind fun output _ t₂ ⟨paid₂, _⟩ => ?_
  refine plain_ledger.before fun l t read => ?_
  obtain ⟨-, rfl⟩ := ledger_eq_ok.mp read
  refine (settles_spend _ _).bind fun surcharge _ t₃ ⟨paid₃, _⟩ => ?_
  refine plain_frame.before fun f t read => ?_
  obtain ⟨-, rfl⟩ := frame_eq_ok.mp read
  refine (plain_forwarded _ _ _).before fun sent t chosen => ?_
  obtain rfl := forwarded_ok chosen
  refine (settles_spend _ _).bind fun forwarded _ t₄ ⟨paid₄, _⟩ => ?_
  refine plain_frame.before fun f t read => ?_
  obtain ⟨-, rfl⟩ := frame_eq_ok.mp read
  refine ((plain_pure _).settles _).mono ?_
  rintro _ r _ ⟨rfl, given⟩
  obtain ⟨rfl, rfl⟩ := pure_eq_ok.mp given
  have enough := covered l scheme carries operands.callee
  have lent : (if carries then Gas.satAdd sent host.rules.gas.callStipend else sent).toNat ≤
      sent.toNat + (stipend host.rules.gas carries).toNat := by
    cases carries with
    | false => exact Nat.le_refl _
    | true => exact Gas.toNat_satAdd_le _ _
  simp only [total_append, total_nil]
  omega

theorem settles_call (scheme : CallScheme) (s : Focus) :
    Settles host.rules.gas (call host scheme) s fun payments r t =>
      t.frame.gas.toNat + total payments + r.gas.toNat ≤ s.frame.gas.toNat := by
  refine (plain_ofStack _).spends fun ⟨gas, callee⟩ t₁ less₁ => ?_
  refine (plain_valueOperand scheme).spends fun value t₂ less₂ => ?_
  refine (plain_ofStack _).spends fun ⟨inOffset, inSize, outOffset, outSize⟩ t₃ less₃ => ?_
  refine plain_requireMutable.maybe fun t₄ less₄ => ?_
  exact (settles_requestCall covered _ _ _ _ t₄).mono fun _ _ _ lent => by omega

end

theorem settles_requestCreate (value offset size : Word) (salt : Option Word) (s : Focus) :
    Settles host.rules.gas (requestCreate host value offset size salt) s fun payments r t =>
      t.frame.gas.toNat + total payments + r.gas.toNat ≤ s.frame.gas.toNat := by
  refine (settles_chargeMemory _ _ s).bind fun charged span t₁ ⟨paid₁, _⟩ => ?_
  refine (plain_spend _).maybe fun t₂ less => ?_
  refine plain_frame.before fun f t read => ?_
  obtain ⟨-, rfl⟩ := frame_eq_ok.mp read
  refine (settles_spend _ _).bind fun lent _ t₃ ⟨paid₃, _⟩ => ?_
  refine ((plain_pure _).settles _).mono ?_
  rintro _ r _ ⟨rfl, given⟩
  obtain ⟨rfl, rfl⟩ := pure_eq_ok.mp given
  simp only [total_append, total_nil]
  omega

theorem settles_create (scheme : CreateScheme) (s : Focus) :
    Settles host.rules.gas (create host scheme) s fun payments r t =>
      t.frame.gas.toNat + total payments + r.gas.toNat ≤ s.frame.gas.toNat := by
  refine plain_requireMutable.spends fun _ t₁ less₁ => ?_
  refine (plain_ofStack _).spends fun ⟨value, offset, size⟩ t₂ less₂ => ?_
  refine (plain_saltOperand scheme).spends fun salt t₃ less₃ => ?_
  exact (settles_requestCreate _ _ _ _ t₃).mono fun _ _ _ lent => by omega

end Instruction

open Instruction

variable {host : Host}

theorem Control.lent_of_quiet {control : Control} (quiet : control.isRequest = false) :
    control.lent = 0 := by
  cases control with
  | next | jumped | halted => rfl
  | call | create => cases quiet

/-- Whatever asks for no frame pays for memory by charges alone. -/
theorem Opcode.bills_perform (host : Host) {op : Opcode} (quiet : op.isRequest = false) :
    Bills host.rules.gas (op.perform host) := by
  have returns (control : Control) : Bills host.rules.gas (pure control) := (plain_pure control).bills
  cases op with
  | stop => exact bills_bind (plain_halted .stopped).bills fun _ => returns .halted
  | unary | binary | ternary =>
      refine bills_bind (plain_ofStack _).bills fun operands => ?_
      exact bills_bind (plain_pushWord _).bills fun _ => returns .next
  | exp =>
      refine bills_bind (plain_ofStack _).bills fun ⟨base, exponent⟩ => ?_
      refine bills_bind (plain_spend _).bills fun _ => ?_
      exact bills_bind (plain_pushWord _).bills fun _ => returns .next
  | query =>
      refine bills_bind plain_frame.bills fun f => ?_
      exact bills_bind (plain_pushWord _).bills fun _ => returns .next
  | account =>
      refine bills_bind (plain_ofStack _).bills fun a => ?_
      refine bills_bind plain_ledger.bills fun l => ?_
      exact bills_bind (plain_pushWord _).bills fun _ => returns .next
  | selfBalance =>
      refine bills_bind plain_ledger.bills fun l => ?_
      refine bills_bind plain_frame.bills fun f => ?_
      exact bills_bind (plain_pushWord _).bills fun _ => returns .next
  | blockHash =>
      refine bills_bind (plain_ofStack _).bills fun requested => ?_
      refine bills_bind plain_frame.bills fun f => ?_
      exact bills_bind (plain_pushWord _).bills fun _ => returns .next
  | sha3 => exact bills_bind bills_sha3 fun _ => returns .next
  | callDataLoad => exact bills_bind plain_callDataLoad.bills fun _ => returns .next
  | copy source => exact bills_bind (bills_copy source) fun _ => returns .next
  | returnDataCopy => exact bills_bind bills_returnDataCopy fun _ => returns .next
  | extCodeCopy => exact bills_bind bills_extCodeCopy fun _ => returns .next
  | pop => exact bills_bind (plain_ofStack _).bills fun _ => returns .next
  | mload => exact bills_bind bills_mload fun _ => returns .next
  | mstore => exact bills_bind bills_mstore fun _ => returns .next
  | mstore8 => exact bills_bind bills_mstore8 fun _ => returns .next
  | sload => exact bills_bind plain_sload.bills fun _ => returns .next
  | sstore => exact bills_bind plain_sstore.bills fun _ => returns .next
  | jump =>
      refine bills_bind (plain_ofStack _).bills fun destination => ?_
      exact bills_bind (plain_jump _).bills fun _ => returns .jumped
  | jumpIf =>
      refine bills_bind (plain_ofStack _).bills fun ⟨destination, condition⟩ => ?_
      dsimp only
      split
      · exact returns .next
      · exact bills_bind (plain_jump _).bills fun _ => returns .jumped
  | jumpDest => exact returns .next
  | push n =>
      refine bills_bind plain_frame.bills fun f => ?_
      refine bills_bind (plain_pushWord _).bills fun _ => ?_
      refine bills_bind (Plain.bills (plain_modifyFrame (fun _ => rfl) fun _ => rfl)) fun _ => ?_
      exact returns .next
  | dup | swap => exact bills_bind (plain_onStack _).bills fun _ => returns .next
  | log topics => exact bills_bind (bills_log _) fun _ => returns .next
  | create | call => cases quiet
  | ret => exact bills_bind (bills_haltWithOutput .stopped) fun _ => returns .halted
  | revert => exact bills_bind (bills_haltWithOutput .reverted) fun _ => returns .halted
  | selfDestruct => exact bills_bind plain_selfDestruct.bills fun _ => returns .halted

section
variable (covered : ∀ l scheme carries callee,
  (stipend host.rules.gas carries).toNat ≤
    (callSurcharge host.rules l scheme carries callee).toNat)
include covered

theorem Opcode.settles_perform (op : Opcode) (s : Focus) :
    Settles host.rules.gas (op.perform host) s fun payments control t =>
      t.frame.gas.toNat + total payments + control.lent.toNat ≤ s.frame.gas.toNat := by
  cases asks : op.isRequest with
  | false =>
      refine (op.bills_perform host asks s).paid.mono fun payments control t ⟨run, paid⟩ => ?_
      have same := (op.nets_perform host s control t run).1
      rw [Control.lent_of_quiet (same.trans asks)]
      exact paid
  | true =>
      have returns {r : UInt64} {payments : List Payment} {t : Focus} (control : Control)
          (lent : control.lent = r)
          (paid : t.frame.gas.toNat + total payments + r.toNat ≤ s.frame.gas.toNat) :
          Settles host.rules.gas (pure control) t fun more control u =>
            u.frame.gas.toNat + total (payments ++ more) + control.lent.toNat ≤
              s.frame.gas.toNat := by
        refine ((plain_pure control).settles t).mono ?_
        rintro _ _ _ ⟨rfl, run⟩
        obtain ⟨rfl, rfl⟩ := pure_eq_ok.mp run
        rwa [List.append_nil, lent]
      cases op with
      | call scheme =>
          exact (settles_call covered scheme s).bind fun _ r t paid => returns (.call r) rfl paid
      | create scheme =>
          exact (settles_create scheme s).bind fun _ r t paid => returns (.create r) rfl paid
      | _ => cases asks

/-- An instruction pays for memory by charges alone, and on top of what it lends. -/
theorem OpcodeEntry.settles_dispatch (entry : OpcodeEntry) (s : Focus) :
    Settles host.rules.gas (entry.dispatch host) s fun payments control t =>
      t.frame.gas.toNat + total payments + control.lent.toNat ≤ s.frame.gas.toNat := by
  have performs (t : Focus) (less : t.frame.gas.toNat ≤ s.frame.gas.toNat) :
      Settles host.rules.gas (do Exec.spend entry.baseGas; entry.opcode.perform host) t
        fun payments control u =>
          u.frame.gas.toNat + total payments + control.lent.toNat ≤ s.frame.gas.toNat := by
    refine (plain_spend _).spends fun _ u less' => ?_
    exact (entry.opcode.settles_perform covered u).mono fun _ _ _ paid => by omega
  refine plain_frame.spends fun f t less => ?_
  split
  · exact (plain_fail _).spends fun _ u less' => performs u (less'.trans less)
  · exact performs t less

end
end EvmEngine
