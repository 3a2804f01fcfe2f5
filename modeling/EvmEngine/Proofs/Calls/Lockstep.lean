import EvmEngine.Proofs.Calls.Checkpoints
import EvmEngine.Proofs.Ledger.Bisimulation

/-!
Frames entered and left on two ledgers that agree in all that can be read. Both answer the request,
enter the same frame, or fail, and are again related, in a checkpoint more where a frame is entered
and in one less where a frame is finished.
-/

namespace EvmEngine

open Effects Ledger

/-- The ledgers on which a request is prepared: in a checkpoint more where there is a frame to run,
which runs in the block given. -/
def Prepared.Twins (block : Block) (R : Nat → Ledger → Ledger → Prop) (n : Nat) :
    Prepared → Ledger → Ledger → Prop
  | .finished _, l, l' => R n l l'
  | .enter child, l, l' => child.env.block = block ∧ R (n + 1) l l'

variable {rules : Rules} {R : Nat → Ledger → Ledger → Prop} {n : Nat} {l l' : Ledger}

namespace Journaled

theorem onLedger_parallel {f : Ledger → Except StateError Ledger} (related : R n l l')
    (both : Twice (R n) (f l) (f l')) :
    Same (R n) (onLedger f l) (onLedger f l') := by
  simp only [onLedger]
  generalize f l = r, f l' = r' at both
  cases both with
  | ok related => exact .ok related
  | error => exact .error related

theorem transfer_parallel (bisim : Bisimulation rules R) (related : R n l l')
    (source destination : Address) (value : Word) :
    Same (R n) (transfer source destination value l) (transfer source destination value l') := by
  refine (onLedger_parallel related (bisim.debit related source value)).bind
    fun _ l l' related => ?_
  exact onLedger_parallel related (bisim.credit related destination value)

theorem discard_related (bisim : Bisimulation rules R) (related : R (n + 1) l l') :
    R n (discard l) (discard l') := by
  obtain ⟨k, k', undone, undone', related⟩ := bisim.rollback related
  simp only [discard, undone, undone']
  exact related

section
variable {α : Type} {action : Journaled α}

theorem orDiscard_parallel (bisim : Bisimulation rules R)
    (h : Same (R (n + 1)) (action l) (action l')) :
    Parallel (fun _ => R (n + 1)) (fun _ => R n) (orDiscard action l) (orDiscard action l') := by
  simp only [orDiscard]
  generalize action l = r, action l' = r' at h
  cases h with
  | ok related => exact .ok related
  | error related => exact .error (discard_related bisim related)

theorem withinCheckpoint_parallel (bisim : Bisimulation rules R) (related : R n l l')
    (inside : ∀ {k k' : Ledger}, R (n + 1) k k' → Same (R (n + 1)) (action k) (action k')) :
    Parallel (fun _ => R (n + 1)) (fun _ => R n) (withinCheckpoint action l)
      (withinCheckpoint action l') :=
  orDiscard_parallel bisim (inside (bisim.checkpoint related))

end

/-- A checkpoint that both ledgers can close is closed on both. -/
theorem close_parallel {close : Ledger → Except StateError Ledger}
    (both : ∃ k k', close l = .ok k ∧ close l' = .ok k' ∧ R n k k') :
    Same (R n) (onLedger close l) (onLedger close l') := by
  obtain ⟨k, k', done, done', related⟩ := both
  simp only [onLedger, done, done']
  exact .ok related

end Journaled

open Journaled

namespace CallRequest

theorem finishPrecompile_parallel (bisim : Bisimulation rules R) (r : CallRequest)
    (p : Precompile) (related : R (n + 1) l l') :
    Same (R n) (r.finishPrecompile p l) (r.finishPrecompile p l') := by
  simp only [finishPrecompile]
  cases p.run r.input r.gas with
  | ok output =>
      exact (close_parallel (bisim.commit related)).bind fun _ _ _ related => .of_pure related
  | error =>
      exact (close_parallel (bisim.rollback related)).bind fun _ _ _ related => .of_pure related

theorem setUp_parallel (bisim : Bisimulation rules R) (r : CallRequest) (related : R n l l') :
    Same (R n)
      ((do
        if r.transfersValue then transfer r.caller r.address r.value
        return (← get).code r.codeAddress : Journaled ByteArray) l)
      ((do
        if r.transfersValue then transfer r.caller r.address r.value
        return (← get).code r.codeAddress : Journaled ByteArray) l') := by
  have reads {l l' : Ledger} (related : R n l l') :
      Same (R n) ((do return (← get).code r.codeAddress : Journaled ByteArray) l)
        ((do return (← get).code r.codeAddress : Journaled ByteArray) l') := by
    refine .after (a := l) (b := l') rfl rfl ?_
    rw [bisim.code related]
    exact .of_pure related
  split
  · exact (transfer_parallel bisim related _ _ _).bind fun _ _ _ related => reads related
  · exact reads related

theorem prepare_parallel {host : Host} (bisim : Bisimulation host.rules R) (r : CallRequest)
    (tx : TxContext) (depth : UInt64) (related : R n l l') :
    Parallel (Prepared.Twins tx.block R n) (fun _ => R n) (r.prepare host tx depth l)
      (r.prepare host tx depth l') := by
  have refused : r.isRefused host.rules l' depth = r.isRefused host.rules l depth := by
    simp only [isRefused, bisim.balance related]
  refine .after (a := l) (b := l') rfl rfl ?_
  rw [refused]
  split
  · exact .of_pure related
  · refine (withinCheckpoint_parallel bisim related (setUp_parallel bisim r)).bind
      fun code l l' related => ?_
    -- The checkpoint is closed again unless there is a frame to run in it.
    cases host.rules.precompileAt? r.codeAddress with
    | some p =>
        exact (r.finishPrecompile_parallel bisim p related).bind fun _ _ _ related =>
          .of_pure related
    | none =>
        dsimp only
        split
        · exact (close_parallel (bisim.commit related)).bind fun _ _ _ related => .of_pure related
        · exact .of_pure ⟨rfl, related⟩

end CallRequest

namespace CreateRequest

theorem setUp_parallel (bisim : Bisimulation rules R) (r : CreateRequest) (address : Address)
    (related : R n l l') : Same (R n) (r.setUp rules address l) (r.setUp rules address l') := by
  have pays {l l' : Ledger} (related : R n l l') :
      Same (R n)
        ((if r.value ≠ 0 then transfer r.creator address r.value else pure () : Journaled Unit) l)
        ((if r.value ≠ 0 then transfer r.creator address r.value else pure () : Journaled Unit)
          l') := by
    split
    · exact transfer_parallel bisim related _ _ _
    · exact .of_pure related
  refine .after (b := ()) rfl rfl ?_
  have created := bisim.createAccount related address
  dsimp only
  split
  · exact .after (b := ()) rfl rfl (pays (bisim.modifyAccount created address _))
  · exact pays created

theorem enter_parallel {host : Host} (bisim : Bisimulation host.rules R) (r : CreateRequest)
    (tx : TxContext) (depth : UInt64) (address : Address) (related : R n l l') :
    Parallel (Prepared.Twins tx.block R n) (fun _ => R n) (r.enter host tx depth address l)
      (r.enter host tx depth address l') := by
  have taken : collides l' address = collides l address := by
    simp only [collides, bisim.nonce related, bisim.code related]
  refine .after (a := l) (b := l') rfl rfl ?_
  rw [taken]
  split
  · exact .of_pure related
  · refine (withinCheckpoint_parallel bisim related (r.setUp_parallel bisim address)).bind
      fun _ _ _ related => ?_
    exact .of_pure ⟨rfl, related⟩

theorem prepare_parallel {host : Host} (bisim : Bisimulation host.rules R) (r : CreateRequest)
    (tx : TxContext) (depth : UInt64) (related : R n l l') :
    Parallel (fun answer => answer.1.Twins tx.block R n) (fun _ => R n)
      (r.prepare host tx depth l) (r.prepare host tx depth l') := by
  have refused : r.isRefused host.rules l' depth = r.isRefused host.rules l depth := by
    simp only [isRefused, bisim.balance related]
  refine .after (a := l) (b := l') rfl rfl ?_
  rw [refused]
  split
  · exact .of_pure related
  · refine .after (a := l) (b := l') rfl rfl ?_
    rw [bisim.nonce related]
    refine .after (b := ()) rfl rfl ?_
    have raised := bisim.modifyAccount related r.creator fun account =>
      { account with nonce := account.nonce + 1 }
    exact (r.enter_parallel bisim tx depth _ raised).bind fun _ _ _ related => .of_pure related

end CreateRequest

namespace Frame

theorem depositCode_parallel (bisim : Bisimulation rules R) (result : CallResult)
    (address : Address) (related : R n l l') :
    Same (R n) (depositCode rules result address l) (depositCode rules result address l') := by
  rw [depositCode]
  dsimp only
  cases rules.maxCodeSize.filter fun limit => limit.toNat < result.returnData.size with
  | some limit => exact .of_pure related
  | none =>
      dsimp only
      split
      · split <;> exact .of_pure related
      · refine (onLedger_parallel related (bisim.saveCode related _ _)).bind
          fun _ _ _ related => ?_
        exact .of_pure related

theorem settled_parallel {host : Host} (bisim : Bisimulation host.rules R) (f : Frame)
    (related : R (n + 1) l l') :
    Parallel (fun _ => R (n + 1)) (fun _ => R n) (f.settled host.rules l)
      (f.settled host.rules l') := by
  rw [settled]
  cases f.target with
  | span => exact .of_pure related
  | account address =>
      dsimp only
      split
      · exact orDiscard_parallel bisim (depositCode_parallel bisim _ address related)
      · exact .of_pure related

/-- A frame that is finished closes its checkpoint on both ledgers, with the same result. -/
theorem complete_parallel {host : Host} (bisim : Bisimulation host.rules R) (f : Frame)
    (related : R (n + 1) l l') :
    Same (R n) (f.complete host l) (f.complete host l') := by
  rw [complete_eq]
  refine (f.settled_parallel bisim related).bind fun result l l' related => ?_
  cases result.success with
  | true =>
      exact (close_parallel (bisim.commit related)).bind fun _ _ _ related => .of_pure related
  | false =>
      exact (close_parallel (bisim.rollback related)).bind fun _ _ _ related => .of_pure related

end Frame
end EvmEngine
