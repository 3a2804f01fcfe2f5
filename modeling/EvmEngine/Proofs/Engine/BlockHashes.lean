import EvmEngine.Proofs.Engine.Lockstep

/-!
What a transaction can tell of the hashes of earlier blocks: those of the 256 blocks before its own,
and no others. An instruction that asks sees exactly these; two hosts that agree on them take the
same steps on one ledger, whatever code runs and however deeply it is nested, and so they end with
the same result and in the same state.
-/

namespace EvmEngine

open Effects Instruction

namespace Block

/-- The numbers of the earlier blocks whose hashes can be asked for: the 256 before the present one,
or all of them where there are fewer. -/
def Recalls (block : Block) (number : UInt64) : Prop :=
  number.toNat < block.number.toNat ∧ block.number.toNat - number.toNat ≤ 256

theorem recalls_iff {block : Block} {number : UInt64} :
    block.Recalls number ↔
      number < block.number ∧ block.number - number ≤ blockHashWindow := by
  refine and_congr_right fun earlier => ?_
  rw [UInt64.le_iff_toNat_le, UInt64.toNat_sub_of_le _ _ (UInt64.le_of_lt earlier)]
  rfl

end Block

namespace Host

variable {host : Host} {hashes : UInt64 → Option Hash} {block : Block}

theorem blockHashAt_ofUInt64 (host : Host) (current number : UInt64) :
    blockHashAt host current (Word.ofUInt64 number) =
      if number < current ∧ current - number ≤ blockHashWindow then (host.blockHash number).getD 0
      else 0 := by
  have small : (Word.ofUInt64 number).toNat = number.toNat :=
    Nat.mod_eq_of_lt (Nat.lt_trans number.toNat_lt (by decide))
  have fits : (Word.ofUInt64 number).toNat < UInt64.size := small ▸ number.toNat_lt
  simp only [blockHashAt, Word.toUInt64?]
  rw [if_pos fits, small, UInt64.ofNat_toNat]

/-- Two hosts answer alike in a block just if they know the same of the blocks that it recalls,
where a hash of zero is no better than none. -/
theorem agreesOn_iff :
    host.AgreesOn hashes block ↔
      ∀ number, block.Recalls number → (hashes number).getD 0 = (host.blockHash number).getD 0 := by
  constructor
  · intro agree number recalled
    have asked := agree (Word.ofUInt64 number)
    rw [blockHashAt_ofUInt64, blockHashAt_ofUInt64] at asked
    rwa [if_pos (Block.recalls_iff.mp recalled), if_pos (Block.recalls_iff.mp recalled)] at asked
  · intro same requested
    simp only [blockHashAt]
    cases requested.toUInt64? with
    | none => rfl
    | some number =>
        dsimp only
        split
        · next recalled => exact same number (Block.recalls_iff.mpr recalled)
        · rfl

end Host

namespace Ledger

/-- Both are the same ledger, in which at least so many checkpoints are open. -/
structure Coincide (n : Nat) (l l' : Ledger) : Prop where
  same : l' = l
  opened : n ≤ l.saved.length

theorem Coincide.change {n : Nat} {l l' : Ledger} (h : Coincide n l l') (f : Ledger → Ledger)
    (kept : (f l).saved = l.saved) : Coincide n (f l) (f l') where
  same := congrArg f h.same
  opened := kept ▸ h.opened

/-- Where a checkpoint is open that goes back to some world, both ledgers close it alike. -/
theorem Coincide.close {n : Nat} {l l' : Ledger} (h : Coincide (n + 1) l l')
    {f : Ledger → Except StateError Ledger}
    (closes : ∀ w rest, l.saved = w :: rest → ∃ k, f l = .ok k ∧ k.saved = rest) :
    ∃ k k', f l = .ok k ∧ f l' = .ok k' ∧ Coincide n k k' := by
  cases saved : l.saved with
  | nil =>
      have opened := h.opened
      rw [saved] at opened
      cases opened
  | cons w rest =>
      obtain ⟨k, done, kept⟩ := closes w rest saved
      have opened := h.opened
      rw [saved, ← kept] at opened
      exact ⟨k, k, done, h.same ▸ done, rfl, Nat.le_of_succ_le_succ opened⟩

theorem bisimulation_coincide (rules : Rules) : Bisimulation rules Coincide where
  world h := congrArg Ledger.world h.same
  initialValue h _ a key := congrArg (·.initialValue a key) h.same
  putAccount {_ l _} h a account := h.change (·.putAccount a account) (l.saved_putAccount a account)
  putSlot {_ l _} h place value := h.change (·.putSlot place value) (l.saved_putSlot place value)
  checkpoint h := ⟨congrArg Ledger.checkpoint h.same, Nat.succ_le_succ h.opened⟩
  commit h := h.close fun _ _ saved => by
    obtain ⟨k, done, -, kept, -⟩ := commit_of_saved saved
    exact ⟨k, done, kept⟩
  rollback h := h.close fun _ _ saved => by
    obtain ⟨k, done, -, kept, -⟩ := rollback_of_saved saved
    exact ⟨k, done, kept⟩

end Ledger

namespace Engine

/-- Inside its checkpoint a message does the same for hosts that answer alike in its block. -/
theorem execute_withHashes {host : Host} {hashes : UInt64 → Option Hash} {block : Block}
    (agree : host.AgreesOn hashes block) (message : Message) (intrinsic : UInt64) (s : Session) :
    execute (host.withHashes hashes) block message intrinsic s =
      execute host block message intrinsic s := by
  have start : s.Twins Eq (Ledger.Coincide 0) s := ⟨rfl, rfl, Nat.zero_le _⟩
  have both := execute_parallel (Ledger.bisimulation_coincide host.rules) Watch.bisimulation_eq
    agree message intrinsic start
  generalize execute host block message intrinsic s = r,
    execute (host.withHashes hashes) block message intrinsic s = r' at both
  have same {t t' : Session} (twins : t.Twins Eq (Ledger.Coincide 0) t') : t' = t := by
    obtain ⟨l, watch⟩ := t
    obtain ⟨rfl, rfl, -⟩ := twins
    rfl
  cases both with
  | ok twins => rw [same twins]
  | error twins => rw [same twins]

/-- Of the block hashes a transaction sees those of the 256 blocks before its own at most: with
hosts that know the same of these it has the same result and leaves the same state. -/
theorem transact_recalls (rules : Rules) (block : Block) (message : Message) (s : Session)
    {hashes hashes' : UInt64 → Option Hash}
    (same : ∀ number, block.Recalls number → hashes' number = hashes number) :
    transact (.ofRules rules hashes') block message s =
      transact (.ofRules rules hashes) block message s := by
  let host := Host.ofRules rules hashes
  have agree : host.AgreesOn hashes' block :=
    Host.agreesOn_iff.mpr fun number recalled => congrArg (·.getD 0) (same number recalled)
  have execute_eq (intrinsic : UInt64) : execute (host.withHashes hashes') block message intrinsic =
      execute host block message intrinsic :=
    funext fun t => execute_withHashes agree message intrinsic t
  show transact (host.withHashes hashes') block message s = transact host block message s
  simp only [transact, execute_eq]
  rfl

/-- A contract calls another one, which keeps the hashes of the oldest block it can ask for and of
the one before that. The second is zero whether or not the host knows it. -/
theorem transact_recalls_nested :
    let block : Block := { Block.genesis with number := 300 }
    let outer : Account :=
      ⟨0, 0,
        ⟨#[0x60, 0, 0x60, 0, 0x60, 0, 0x60, 0, 0x60, 0, 0x60, 0xbb, 0x61, 0xff, 0xff, 0xf1, 0]⟩, 0⟩
    let inner : Account :=
      ⟨0, 0, ⟨#[0x60, 44, 0x40, 0x60, 0, 0x55, 0x60, 43, 0x40, 0x60, 1, 0x55, 0]⟩, 0⟩
    let world := (World.empty.setAccount 0xaa (some outer)).setAccount 0xbb (some inner)
    let message : Message := ⟨0xcc, some 0xaa, 0, ByteArray.empty, 200000, 0⟩
    let s : Session := ⟨.ofWorld world, Watch.start false none⟩
    let knows (number : UInt64) : Option Hash := some (BitVec.ofNat 256 (number.toNat + 1))
    let forgets (number : UInt64) : Option Hash := if number.toNat < 44 then none else knows number
    let rules := Rules.ofFork .istanbul
    let after := (endState (transact (.ofRules rules knows) block message) s).ledger
    (∀ number, block.Recalls number → forgets number = knows number) ∧
      transact (.ofRules rules forgets) block message s =
        transact (.ofRules rules knows) block message s ∧
      block.Recalls 44 ∧ after.load 0xbb 0 = 45 ∧
      ¬ block.Recalls 43 ∧ forgets 43 ≠ knows 43 ∧ after.load 0xbb 1 = 0 := by
  intro block outer inner world message s knows forgets rules after
  have same (number : UInt64) (recalled : block.Recalls number) :
      forgets number = knows number := by
    have late : 300 - number.toNat ≤ 256 := recalled.2
    exact if_neg (by omega)
  refine ⟨same, transact_recalls rules block message s same, ⟨by decide, by decide⟩, ?_⟩
  refine ⟨by decide +kernel, fun recalled => absurd recalled.2 (by decide), by decide, ?_⟩
  decide +kernel

end Engine
end EvmEngine
