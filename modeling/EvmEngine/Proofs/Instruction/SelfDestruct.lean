import EvmEngine.Proofs.Instruction.Deeds
import EvmEngine.Proofs.Ledger.Code
import EvmEngine.Proofs.Ledger.Flow

/-!
SELFDESTRUCT. It notes the account of the frame for deletion and gives the whole balance away, unless
the beneficiary is the account itself; nothing else of any account changes.
-/

namespace EvmEngine

open Effects Exec

/-- The account that a self-destruct in this frame names: it is on top of the stack. -/
def Frame.beneficiary (f : Frame) : Address :=
  (f.stack.words.getD 0 0).toAddress

namespace Focus

/-- What a self-destruct in favour of an account has done. -/
structure Destroys (beneficiary : Address) (s s' : Focus) : Prop where
  noted : s'.frame.destroyed = Deed.noteOnce s.frame.destroyed s.frame.env.address
  halted : s.frame.isRunning = true → s'.frame.halt = .stopped
  still : beneficiary = s.frame.env.address ∨ s.ledger.balance s.frame.env.address = 0 →
    s'.ledger = s.ledger
  pays : beneficiary ≠ s.frame.env.address → s.ledger.balance s.frame.env.address ≠ 0 →
    World.Pays s.frame.env.address beneficiary (s.ledger.balance s.frame.env.address)
      s.ledger.world s'.ledger.world

/-- Paying for it before makes no difference. -/
theorem Destroys.of_pays {beneficiary : Address} {price : Nat} {s t s' : Focus}
    (h : t.Destroys beneficiary s') (pays : s.Pays price t) : s.Destroys beneficiary s' := by
  have record : t.frame.destroyed = s.frame.destroyed := by rw [pays.frame]
  obtain ⟨noted, halted, still, gives⟩ := h
  rw [pays.env] at noted
  rw [pays.env, pays.ledger] at still gives
  exact ⟨record ▸ noted, fun running => halted (pays.isRunning.trans running), still, gives⟩

end Focus

namespace Exec

theorem onLedger_ok {f : Ledger → Except StateError Ledger} {s s' : Focus} {u : Unit}
    (h : onLedger f s = .ok u s') : ∃ l, f s.ledger = .ok l ∧ s' = { s with ledger := l } := by
  simp only [onLedger] at h
  split at h
  · next l done =>
      cases h
      exact ⟨l, done, rfl⟩
  · cases h

end Exec

namespace Instruction

variable {s s' : Focus}

/-- Once it is paid for, the account is noted and what it holds is given away. -/
theorem destroy_ok {account beneficiary : Address} {balance : Word} {u : Unit}
    (own : s.frame.env.address = account) (holds : s.ledger.balance account = balance)
    (h : (do
      modifyFrame (·.recordDestroyed account)
      if beneficiary ≠ account ∧ balance ≠ 0 then
        onLedger (·.debit account balance)
        onLedger (·.credit beneficiary balance)
      modifyFrame (·.halted .stopped) : Exec Unit) s = .ok u s') : s.Destroys beneficiary s' := by
  subst own holds
  have ends : s'.frame = (s.frame.recordDestroyed s.frame.env.address).halted .stopped →
      s'.frame.destroyed = Deed.noteOnce s.frame.destroyed s.frame.env.address ∧
        (s.frame.isRunning = true → s'.frame.halt = .stopped) := by
    intro frame
    refine ⟨?_, fun running => ?_⟩
    · rw [frame, (Frame.works_halted _ _).destroyed, Frame.recordDestroyed_eq]
    · have running : (s.frame.recordDestroyed s.frame.env.address).isRunning = true := by
        rw [Frame.recordDestroyed_eq]
        exact running
      rw [frame, Frame.halted, if_pos running]
  obtain ⟨_, s₁, noted, h⟩ := bind_eq_ok.mp h
  cases noted
  dsimp only at h
  split at h
  · next gives =>
      obtain ⟨_, s₂, debit, h⟩ := bind_eq_ok.mp h
      obtain ⟨l₁, debited, rfl⟩ := onLedger_ok debit
      obtain ⟨_, s₃, credit, h⟩ := bind_eq_ok.mp h
      obtain ⟨l₂, credited, rfl⟩ := onLedger_ok credit
      cases h
      obtain ⟨noted, halted⟩ := ends rfl
      refine ⟨noted, halted, fun keeps => ?_, fun _ _ => ⟨_, l₁, l₂, debited, credited, rfl, rfl⟩⟩
      exact absurd gives (not_and_or.mpr (keeps.imp not_not.mpr not_not.mpr))
  · next keeps =>
      cases h
      obtain ⟨noted, halted⟩ := ends rfl
      exact ⟨noted, halted, fun _ => rfl, fun other positive => absurd ⟨other, positive⟩ keeps⟩

theorem selfDestruct_ok {host : Host} {u : Unit} (h : selfDestruct host s = .ok u s') :
    s.Destroys s.frame.beneficiary s' := by
  obtain ⟨_, _, checked, h⟩ := bind_eq_ok.mp h
  obtain ⟨-, rfl⟩ := requireMutable_ok checked
  obtain ⟨word, s₁, popped, h⟩ := bind_eq_ok.mp h
  obtain ⟨stack, taken, popped⟩ := ofStack_ok popped
  have operand : s.frame.beneficiary = word.toAddress := by
    rw [Frame.beneficiary, Stack.pop_ok taken, List.getD_cons_zero]
  have pays : s.Pays 0 s₁ := popped ▸ ⟨rfl, rfl, rfl⟩
  obtain ⟨f, s₂, read, h⟩ := bind_eq_ok.mp h
  obtain ⟨rfl, rfl⟩ := frame_eq_ok.mp read
  obtain ⟨l, s₃, read, h⟩ := bind_eq_ok.mp h
  obtain ⟨rfl, rfl⟩ := ledger_eq_ok.mp read
  rw [operand]
  dsimp only at h
  split at h
  · obtain ⟨_, s₄, spent, h⟩ := bind_eq_ok.mp h
    have pays' := (spend_ok spent).1
    exact ((destroy_ok (by rw [pays'.env]) (by rw [pays'.ledger]) h).of_pays pays').of_pays pays
  · exact (destroy_ok rfl rfl h).of_pays pays

end Instruction

/-- An account that is noted is there once. -/
theorem Deed.count_noteOnce {seen : List Address} (distinct : seen.Nodup) (a : Address) :
    (noteOnce seen a).count a = 1 := by
  simp only [noteOnce]
  split
  · next known => exact List.count_eq_one_of_mem distinct (List.contains_iff_mem.mp known)
  · next new =>
      have absent : a ∉ seen := fun member => new (List.contains_iff_mem.mpr member)
      rw [List.count_append, List.count_eq_zero.mpr absent, List.count_singleton_self]

namespace Focus

/-- What a self-destruct that succeeds leaves behind. -/
structure GivesUp (s s' : Focus) : Prop where
  emptied : s.frame.beneficiary ≠ s.frame.env.address →
    s'.ledger.balance s.frame.env.address = 0 ∧
      (s'.ledger.balance s.frame.beneficiary).toNat =
        (s.ledger.balance s.frame.beneficiary).toNat +
          (s.ledger.balance s.frame.env.address).toNat
  kept : s.frame.beneficiary = s.frame.env.address → s'.ledger = s.ledger
  others (a : Address) : a ≠ s.frame.env.address → a ≠ s.frame.beneficiary →
    s'.ledger.balance a = s.ledger.balance a
  spared (a : Address) : World.Spared a s.ledger.world s'.ledger.world
  halted : s'.frame.halt = .stopped
  noted : s.frame.destroyed.Nodup → s'.frame.destroyed.count s.frame.env.address = 1

variable {s s' : Focus}

theorem Destroys.givesUp (h : s.Destroys s.frame.beneficiary s')
    (running : s.frame.isRunning = true) : s.GivesUp s' := by
  have noted (distinct : s.frame.destroyed.Nodup) :
      s'.frame.destroyed.count s.frame.env.address = 1 := by
    rw [h.noted, Deed.count_noteOnce distinct]
  by_cases keeps : s.frame.beneficiary = s.frame.env.address ∨
      s.ledger.balance s.frame.env.address = 0
  · have same := h.still keeps
    refine ⟨fun other => ?_, fun _ => same, fun _ _ _ => by rw [same], fun a => ?_,
      h.halted running, noted⟩
    · have nothing := keeps.resolve_left other
      rw [same, nothing]
      exact ⟨rfl, rfl⟩
    · rw [same]
      exact .refl a _
  · obtain ⟨other, positive⟩ := not_or.mp keeps
    have paid := h.pays other positive
    refine ⟨fun _ => ⟨?_, ?_⟩, fun same => absurd same other, fun a notSource notGoal => ?_,
      paid.spared, h.halted running, noted⟩
    · have source := paid.balance s.frame.env.address
      rw [if_pos rfl, if_neg other] at source
      refine BitVec.eq_of_toNat_eq ?_
      show (s'.ledger.world.balance _).toNat = 0
      have start : s.ledger.balance s.frame.env.address =
        s.ledger.world.balance s.frame.env.address := rfl
      rw [start] at source
      omega
    · have goal := paid.balance s.frame.beneficiary
      rw [if_neg (Ne.symm other), if_pos rfl] at goal
      exact goal
    · have third := paid.balance a
      rw [if_neg (Ne.symm notSource), if_neg (Ne.symm notGoal)] at third
      exact BitVec.eq_of_toNat_eq third

/-- What was paid before makes no difference. -/
theorem GivesUp.of_pays {price : Nat} {t : Focus} (h : t.GivesUp s') (pays : s.Pays price t)
    (stack : t.frame.stack = s.frame.stack) : s.GivesUp s' := by
  have operand : t.frame.beneficiary = s.frame.beneficiary := by
    rw [Frame.beneficiary, stack, Frame.beneficiary]
  have record : t.frame.destroyed = s.frame.destroyed := by rw [pays.frame]
  obtain ⟨emptied, kept, others, spared, halted, noted⟩ := h
  rw [operand, pays.env, pays.ledger] at emptied kept
  rw [record, pays.env] at noted
  simp only [operand, pays.env, pays.ledger] at others spared
  exact ⟨emptied, kept, others, spared, halted, noted⟩

end Focus

/-- Every self-destruct that succeeds gives its account up. -/
theorem Opcode.selfDestruct_givesUp {host : Host} {s s' : Focus} {control : Control}
    (running : s.frame.isRunning = true)
    (h : Opcode.selfDestruct.perform host s = .ok control s') :
    control = .halted ∧ s.GivesUp s' := by
  obtain ⟨_, t, done, h⟩ := bind_eq_ok.mp h
  obtain ⟨rfl, rfl⟩ := pure_eq_ok.mp h
  exact ⟨rfl, (Instruction.selfDestruct_ok done).givesUp running⟩

/-- An account that names itself keeps what it holds until it is deleted. -/
theorem Opcode.selfDestruct_to_itself_keeps_balance :
    let host := Host.ofRules (.ofFork .istanbul) fun _ => none
    let world := World.empty.setAccount 7 (some ⟨5, 0, ByteArray.empty, 0⟩)
    let env : Environment :=
      ⟨.message .call, 7, 7, 2, 2, 0, ByteArray.empty, 0, Block.genesis, 0, false⟩
    let frame := { Frame.start env (.span 0 0) ByteArray.empty 100 with stack := ⟨[7]⟩ }
    let s : Focus := ⟨frame, Ledger.ofWorld world⟩
    s.frame.isRunning = true ∧ s.frame.destroyed = [] ∧
      ∃ s', Opcode.selfDestruct.perform host s = .ok .halted s' ∧
        s'.frame.destroyed = [s.frame.env.address] ∧ s'.ledger.balance s.frame.env.address = 5 := by
  intro host world env frame s
  exact ⟨rfl, rfl, _, rfl, rfl, by decide⟩

end EvmEngine
