import EvmEngine.Proofs.Ledger.Initial

/-!
The store that the notes of a ledger save: one that copies the whole world whenever a checkpoint is
opened. Every answer of a ledger, and the world it comes to, is that of the copying store, whatever
is asked and changed in between and whichever operations are refused.
-/

namespace EvmEngine

/-- What can be asked of an account store. -/
inductive StoreOp
  | balance (a : Address)
  | credit (a : Address) (amount : Word)
  | debit (a : Address) (amount : Word)
  | nonce (a : Address)
  | bumpNonce (a : Address)
  | code (a : Address)
  | saveCode (a : Address) (code : ByteArray)
  | codeHash (a : Address)
  | load (a : Address) (key : Word)
  | store (a : Address) (key value : Word)
  | initialValue (a : Address) (key : Word)
  | createAccount (a : Address)
  | hasAccount (a : Address)
  | isEmpty (a : Address)
  | delete (a : Address)
  | checkpoint
  | commit
  | rollback

inductive StoreAnswer
  | word (w : Word)
  | nonce (n : UInt64)
  | code (bytes : ByteArray)
  | flag (b : Bool)
  | done
  | refused (cause : StateError)

namespace Ledger

/-- A change that may be refused; a refused one changes nothing. -/
def attempt (l : Ledger) : Except StateError Ledger → StoreAnswer × Ledger
  | .ok l' => (.done, l')
  | .error cause => (.refused cause, l)

def perform (l : Ledger) : StoreOp → StoreAnswer × Ledger
  | .balance a => (.word (l.balance a), l)
  | .credit a amount => l.attempt (l.credit a amount)
  | .debit a amount => l.attempt (l.debit a amount)
  | .nonce a => (.nonce (l.nonce a), l)
  | .bumpNonce a => (.nonce (l.nonce a), l.bumpNonce a)
  | .code a => (.code (l.code a), l)
  | .saveCode a code => l.attempt (l.saveCode a code)
  | .codeHash a => (.word (l.codeHash a), l)
  | .load a key => (.word (l.load a key), l)
  | .store a key value => (.done, l.store a key value)
  | .initialValue a key => (.word (l.initialValue a key), l)
  | .createAccount a => (.done, l.createAccount a)
  | .hasAccount a => (.flag (l.hasAccount a), l)
  | .isEmpty a => (.flag (l.isEmpty a), l)
  | .delete a => (.done, l.delete a)
  | .checkpoint => (.done, l.checkpoint)
  | .commit => l.attempt l.commit
  | .rollback => l.attempt l.rollback

/-- Performs operations one after the other and collects the answers. -/
def performAll : Ledger → List StoreOp → List StoreAnswer × Ledger
  | l, [] => ([], l)
  | l, op :: ops =>
      let (answer, l) := l.perform op
      let (answers, l) := l.performAll ops
      (answer :: answers, l)

end Ledger

/-- A store that copies the world at each checkpoint, the innermost copy first. -/
structure SnapshotStore where
  world : World
  copies : List World

namespace SnapshotStore

def ofWorld (w : World) : SnapshotStore := ⟨w, []⟩

def change (s : SnapshotStore) (f : World → World) : StoreAnswer × SnapshotStore :=
  (.done, { s with world := f s.world })

def balance (s : SnapshotStore) (a : Address) : Word :=
  (s.world.account? a).elim 0 Account.balance

def nonce (s : SnapshotStore) (a : Address) : UInt64 :=
  (s.world.account? a).elim 0 Account.nonce

/-- The copy made first, or the world where none is kept. -/
def oldest (s : SnapshotStore) : World :=
  s.copies.getLast?.getD s.world

def perform (s : SnapshotStore) : StoreOp → StoreAnswer × SnapshotStore
  | .balance a => (.word (s.balance a), s)
  | .credit a amount =>
      if BitVec.uaddOverflow (s.balance a) amount then (.refused (.balanceOverflow a), s)
      else s.change (·.setBalance a (s.balance a + amount))
  | .debit a amount =>
      if s.balance a < amount then (.refused (.insufficientBalance a), s)
      else s.change (·.setBalance a (s.balance a - amount))
  | .nonce a => (.nonce (s.nonce a), s)
  | .bumpNonce a =>
      (.nonce (s.nonce a), { s with world := s.world.setNonce a (s.nonce a + 1) })
  | .code a => (.code ((s.world.account? a).elim ByteArray.empty Account.code), s)
  | .saveCode a code =>
      if (s.world.account? a).isSome then s.change (·.setCode a code)
      else (.refused (.notFound a), s)
  | .codeHash a => (.word ((s.world.account? a).elim 0 Account.codeHash), s)
  | .load a key => (.word ((s.world.slot? (a, key)).getD 0), s)
  | .store a key value => s.change (·.setSlot (a, key) (World.stored value))
  | .initialValue a key => (.word ((s.oldest.slot? (a, key)).getD 0), s)
  | .createAccount a =>
      s.change fun w =>
        (w.clearStorage a).setAccount a (some { Account.blank with balance := s.balance a })
  | .hasAccount a => (.flag (s.world.account? a).isSome, s)
  | .isEmpty a => (.flag ((s.world.account? a).all Account.isEmpty), s)
  | .delete a => s.change fun w => (w.clearStorage a).setAccount a none
  | .checkpoint => (.done, { s with copies := s.world :: s.copies })
  | .commit =>
      match s.copies with
      | [] => (.refused .noCheckpoint, s)
      | _ :: rest => (.done, { s with copies := rest })
  | .rollback =>
      match s.copies with
      | [] => (.refused .noCheckpoint, s)
      | copy :: rest => (.done, ⟨copy, rest⟩)

def performAll : SnapshotStore → List StoreOp → List StoreAnswer × SnapshotStore
  | s, [] => ([], s)
  | s, op :: ops =>
      let (answer, s) := s.perform op
      let (answers, s) := s.performAll ops
      (answer :: answers, s)

end SnapshotStore

namespace Ledger

/-- The copying store that a ledger stands for. -/
def snapshots (l : Ledger) : SnapshotStore := ⟨l.world, l.saved⟩

@[simp] theorem snapshots_putAccount (l : Ledger) (a : Address) (account : Option Account) :
    (l.putAccount a account).snapshots = ⟨l.world.setAccount a account, l.saved⟩ := by
  simp [snapshots]

theorem snapshots_modifyAccount (l : Ledger) (a : Address) (f : Account → Account) :
    (l.modifyAccount a f).snapshots = ⟨l.world.modifyAccount a f, l.saved⟩ :=
  snapshots_putAccount l a _

/-- An operation on a ledger, against the same operation on the store it stands for. -/
def Agrees (l : Ledger) (op : StoreOp) : Prop :=
  ((l.perform op).1, (l.perform op).2.snapshots) = l.snapshots.perform op ∧
    (l.perform op).2.Remembers

theorem Agrees.of_eq {l l' : Ledger} {op : StoreOp} {answer : StoreAnswer}
    (journal : l.perform op = (answer, l'))
    (copying : l.snapshots.perform op = (answer, l'.snapshots)) (h : l'.Remembers) :
    l.Agrees op := by
  rw [Agrees, journal]
  exact ⟨copying.symm, h⟩

section
variable {l : Ledger} (h : l.Remembers)
include h

theorem agrees_credit (a : Address) (amount : Word) : l.Agrees (.credit a amount) := by
  by_cases wraps : BitVec.uaddOverflow (l.balance a) amount
  · have refused : l.credit a amount = .error (.balanceOverflow a) := by simp [credit, wraps]
    exact .of_eq (by rw [perform, refused]; rfl) (if_pos wraps) h
  · have done : l.credit a amount = .ok (l.modifyAccount a fun account =>
        { account with balance := l.balance a + amount }) := by simp [credit, wraps]
    refine .of_eq (by rw [perform, done]; rfl) ?_ (h.modifyAccount a _)
    rw [snapshots_modifyAccount]
    exact if_neg wraps

theorem agrees_debit (a : Address) (amount : Word) : l.Agrees (.debit a amount) := by
  by_cases short : l.balance a < amount
  · have refused : l.debit a amount = .error (.insufficientBalance a) := by simp [debit, short]
    exact .of_eq (by rw [perform, refused]; rfl) (if_pos short) h
  · have done : l.debit a amount = .ok (l.modifyAccount a fun account =>
        { account with balance := l.balance a - amount }) := by simp [debit, short]
    refine .of_eq (by rw [perform, done]; rfl) ?_ (h.modifyAccount a _)
    rw [snapshots_modifyAccount]
    exact if_neg short

theorem agrees_bumpNonce (a : Address) : l.Agrees (.bumpNonce a) := by
  refine .of_eq rfl ?_ (h.modifyAccount a _)
  have nonce : ((l.world.account? a).getD .blank).nonce = l.nonce a := by
    simp only [Ledger.nonce]
    cases l.world.account? a <;> rfl
  rw [bumpNonce, snapshots_modifyAccount, World.modifyAccount, nonce]
  rfl

theorem agrees_saveCode (a : Address) (code : ByteArray) : l.Agrees (.saveCode a code) := by
  by_cases known : (l.world.account? a).isSome
  · have done : l.saveCode a code = .ok (l.modifyAccount a (·.withCode code)) := by
      simp [saveCode, hasAccount, known]
    refine .of_eq (by rw [perform, done]; rfl) ?_ (h.modifyAccount a _)
    rw [snapshots_modifyAccount]
    exact if_pos known
  · have refused : l.saveCode a code = .error (.notFound a) := by
      simp [saveCode, hasAccount, known]
    exact .of_eq (by rw [perform, refused]; rfl) (if_neg known) h

theorem agrees_initialValue (a : Address) (key : Word) : l.Agrees (.initialValue a key) := by
  refine .of_eq rfl ?_ h
  rw [h.initialValue_eq]
  rfl

theorem agrees_createAccount (a : Address) : l.Agrees (.createAccount a) := by
  refine .of_eq rfl ?_ ((h.clearStorage a).putAccount a _)
  rw [createAccount, snapshots_putAccount, world_clearStorage, saved_clearStorage]
  rfl

theorem agrees_delete (a : Address) : l.Agrees (.delete a) := by
  refine .of_eq rfl ?_ ((h.clearStorage a).putAccount a none)
  rw [delete, snapshots_putAccount, world_clearStorage, saved_clearStorage]
  rfl

theorem agrees_commit : l.Agrees .commit := by
  match open_ : l.saved with
  | [] =>
      have refused : l.commit = .error .noCheckpoint := by
        simp [commit, (saved_eq_nil l).mp open_]
      refine .of_eq (by rw [perform, refused]; rfl) ?_ h
      simp [SnapshotStore.perform, snapshots, open_]
  | w :: rest =>
      obtain ⟨l', done, world, saved, initial⟩ := commit_of_saved open_
      refine .of_eq (by rw [perform, done]; rfl) ?_ (h.close open_ saved (.inl world) initial)
      simp [SnapshotStore.perform, snapshots, open_, world, saved]

theorem agrees_rollback : l.Agrees .rollback := by
  match open_ : l.saved with
  | [] =>
      have refused : l.rollback = .error .noCheckpoint := by
        simp [rollback, (saved_eq_nil l).mp open_]
      refine .of_eq (by rw [perform, refused]; rfl) ?_ h
      simp [SnapshotStore.perform, snapshots, open_]
  | w :: rest =>
      obtain ⟨l', done, world, saved, initial⟩ := rollback_of_saved open_
      refine .of_eq (by rw [perform, done]; rfl) ?_ (h.close open_ saved (.inr world) initial)
      simp [SnapshotStore.perform, snapshots, open_, world, saved]

theorem agrees (op : StoreOp) : l.Agrees op := by
  cases op with
  | balance | nonce | code | codeHash | load | hasAccount | isEmpty => exact ⟨rfl, h⟩
  | credit a amount => exact agrees_credit h a amount
  | debit a amount => exact agrees_debit h a amount
  | bumpNonce a => exact agrees_bumpNonce h a
  | saveCode a code => exact agrees_saveCode h a code
  | store a key value =>
      refine ⟨?_, h.putSlot (a, key) value⟩
      simp [perform, store, SnapshotStore.perform, SnapshotStore.change, snapshots]
  | initialValue a key => exact agrees_initialValue h a key
  | createAccount a => exact agrees_createAccount h a
  | delete a => exact agrees_delete h a
  | checkpoint => exact ⟨rfl, h.checkpoint⟩
  | commit => exact agrees_commit h
  | rollback => exact agrees_rollback h

end

theorem Remembers.performAll {l : Ledger} (h : l.Remembers) (ops : List StoreOp) :
    (l.performAll ops).2.Remembers := by
  induction ops generalizing l with
  | nil => exact h
  | cons op ops ih => exact ih (agrees h op).2

theorem performAll_snapshots {l : Ledger} (h : l.Remembers) (ops : List StoreOp) :
    ((l.performAll ops).1, (l.performAll ops).2.snapshots) = l.snapshots.performAll ops := by
  induction ops generalizing l with
  | nil => rfl
  | cons op ops ih =>
      obtain ⟨same, remembers⟩ := agrees h op
      have rest := ih remembers
      simp only [performAll, SnapshotStore.performAll, ← same, ← rest]

end Ledger

/-- Whatever is done to a store without open checkpoints, the notes of a ledger answer as whole
copies of the world would, refusals included, and come to the same accounts and slots. -/
theorem journal_refines_snapshots (w : World) (ops : List StoreOp) :
    ((Ledger.ofWorld w).performAll ops).1 = ((SnapshotStore.ofWorld w).performAll ops).1 ∧
      ((Ledger.ofWorld w).performAll ops).2.world =
        ((SnapshotStore.ofWorld w).performAll ops).2.world ∧
      ((Ledger.ofWorld w).performAll ops).2.saved =
        ((SnapshotStore.ofWorld w).performAll ops).2.copies := by
  have same := Ledger.performAll_snapshots (Ledger.remembers_ofWorld w) ops
  have start : (Ledger.ofWorld w).snapshots = SnapshotStore.ofWorld w := rfl
  rw [← start, ← same]
  exact ⟨rfl, rfl, rfl⟩

end EvmEngine
