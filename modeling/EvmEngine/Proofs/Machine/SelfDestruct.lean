import EvmEngine.Proofs.Instruction.Ledger
import EvmEngine.Proofs.Instruction.SelfDestruct
import EvmEngine.Proofs.Machine.Chronicle
import EvmEngine.Proofs.Machine.Requests

/-!
What becomes of an account that has destroyed itself before it is deleted. It can still be called, but
as long as the frame that executed the self-destruct and those around it do not fail, the world only
goes on from there: and so the account spends nothing but what it has received since.
-/

namespace EvmEngine
namespace Machine

open Effects

variable {host : Host} {m m' : Machine} {w : World} {old : Nat}

/-- The machine after so many more iterations, where the run gets that far and none of the lowest so
many of its frames has been finished without success by then. -/
def outlived? (host : Host) : Nat → Nat → Machine → Option Machine
  | 0, _, m => some m
  | n + 1, old, m =>
      match m.advance host with
      | .more m' =>
          if m'.frames.length < old ∧ (ended? host m 0).any (!·.success) then none
          else outlived? host n (min old m'.frames.length) m'
      | .finished _ _ | .failed _ _ => none

/-- So many frames have been open since the world was the one given. It has only been written to in
the meantime, and so has what the checkpoints of the frames above those go back to. -/
def Since (w : World) (old : Nat) (m : Machine) : Prop :=
  ∃ inner rest, m.ledger.saved = inner ++ rest ∧ m.frames.length = inner.length + old ∧
    old ≤ rest.length ∧ ∀ v ∈ m.ledger.world :: inner, World.Writes w v

theorem Since.old_le (h : m.Since w old) : old ≤ m.frames.length := by
  obtain ⟨inner, _, -, count, -⟩ := h
  omega

theorem Since.write (h : m.Since w old)
    (writes : World.Writes m.ledger.world m'.ledger.world)
    (saved : m'.ledger.saved = m.ledger.saved) (count : m'.frames.length = m.frames.length) :
    m'.Since w (min old m'.frames.length) := by
  rw [count, Nat.min_eq_left h.old_le]
  obtain ⟨inner, rest, inside, open_, enough, written⟩ := h
  obtain ⟨now, before⟩ := List.forall_mem_cons.mp written
  exact ⟨inner, rest, saved.trans inside, count.trans open_, enough,
    List.forall_mem_cons.mpr ⟨now.trans writes, before⟩⟩

/-- A frame is entered, with a checkpoint of a world that has been written to only. -/
theorem Since.enter (h : m.Since w old) {asked : World}
    (asks : World.Writes m.ledger.world asked) (saved : m'.ledger.saved = asked :: m.ledger.saved)
    (moved : World.Writes asked m'.ledger.world)
    (count : m'.frames.length = m.frames.length + 1) : m'.Since w (min old m'.frames.length) := by
  have few := h.old_le
  rw [Nat.min_eq_left (by omega)]
  obtain ⟨inner, rest, inside, open_, enough, written⟩ := h
  obtain ⟨now, before⟩ := List.forall_mem_cons.mp written
  have written := now.trans asks
  refine ⟨asked :: inner, rest, ?_, ?_, enough, ?_⟩
  · rw [saved, inside, List.cons_append]
  · rw [count, open_, List.length_cons]
    omega
  · exact List.forall_mem_cons.mpr ⟨written.trans moved, List.forall_mem_cons.mpr ⟨written, before⟩⟩

/-- A frame is finished and its checkpoint closed. Without success the world is again what it was
when the frame was entered, and so the frame has to be one that was entered since. -/
theorem Since.leave (h : m.Since w old) {success : Bool}
    (closes : ∀ {v rest}, m.ledger.saved = v :: rest → m'.ledger.saved = rest ∧
      (success = false → m'.ledger.world = v) ∧
      (success = true → World.Writes m.ledger.world m'.ledger.world))
    (count : m.frames.length = m'.frames.length + 1)
    (lasts : m'.frames.length < old → success = true) : m'.Since w (min old m'.frames.length) := by
  obtain ⟨inner, rest, inside, open_, enough, written⟩ := h
  obtain ⟨now, before⟩ := List.forall_mem_cons.mp written
  cases inner with
  | cons v inner =>
      obtain ⟨closed, failed, succeeded⟩ := closes inside
      obtain ⟨back, before⟩ := List.forall_mem_cons.mp before
      rw [List.length_cons] at open_
      rw [Nat.min_eq_left (by omega)]
      refine ⟨inner, rest, closed, by omega, enough, List.forall_mem_cons.mpr ⟨?_, before⟩⟩
      cases success with
      | true => exact now.trans (succeeded rfl)
      | false => exact failed rfl ▸ back
  | nil =>
      rw [List.length_nil, Nat.zero_add] at open_
      obtain ⟨v, rest, rfl⟩ := List.exists_cons_of_length_pos (show 0 < rest.length by omega)
      obtain ⟨closed, -, succeeded⟩ := closes inside
      rw [List.length_cons] at enough
      rw [Nat.min_eq_right (by omega)]
      exact ⟨[], rest, closed, (Nat.zero_add _).symm, by omega,
        List.forall_mem_singleton.mpr (now.trans (succeeded (lasts (by omega))))⟩

/-- An iteration that does not finish one of the oldest frames without success only writes to the
world, or goes back to what it was at some time since. -/
theorem Step.since (step : Step host m m') (h : m.Since w old)
    (lasts : m'.frames.length < old → (ended? host m 0).any (!·.success) = false) :
    m'.Since w (min old m'.frames.length) := by
  cases step with
  | ran running stepped quiet =>
      have kept := Focus.Keeps.of_step_ok stepped
      exact h.write ((Focus.step_edits _ host _).ok stepped) kept.saved rfl
  | @answered f f₁ f' below l l₁ l' _ _ control _ _ result _ running stepped asks set absorbed =>
      have kept := Focus.Keeps.of_step_ok stepped
      have writes := (Focus.step_edits _ host _).ok stepped
      have answers := Focus.step_answered stepped asks set
      have opened := control.writes_opening host.rules f₁.env l₁
      exact h.write ((writes.trans opened).trans answers.writes)
        (answers.saved.trans ((Control.saved_opening ..).trans kept.saved)) rfl
  | @entered f f₁ child below l l₁ l' _ _ control _ _ _ running stepped asks set =>
      have kept := Focus.Keeps.of_step_ok stepped
      have writes := (Focus.step_edits _ host _).ok stepped
      have opens := Focus.step_entered stepped asks set
      have opened := control.writes_opening host.rules f₁.env l₁
      refine h.enter (writes.trans opened) ?_ opens.moved rfl
      rw [opens.saved, Control.saved_opening, kept.saved]
  | @returned f parent parent' below l l' watch result ended completed absorbed =>
      refine h.leave (fun inside => (Frame.complete_ensures inside).ok completed) rfl fun closes => ?_
      have known : ended? host ⟨l, f :: parent :: below, watch⟩ 0 = some result := by
        simp only [ended?, iterate, ended, completed]
      have success := lasts closes
      rw [known, Option.any_some, Bool.not_eq_false'] at success
      exact success

theorem Since.outlived {n : Nat} {later : Machine} (h : m.Since w old)
    (reached : outlived? host n old m = some later) : World.Writes w later.ledger.world := by
  induction n generalizing m old with
  | zero =>
      obtain ⟨_, _, -, -, -, written⟩ := h
      cases reached
      exact written _ List.mem_cons_self
  | succ n ih =>
      simp only [outlived?] at reached
      split at reached
      · next m' advanced =>
          split at reached
          · cases reached
          · next survives =>
              refine ih ((step_of_more advanced).since h fun closes => ?_) reached
              exact Bool.eq_false_iff.mpr (not_and.mp survives closes)
      · cases reached
      · cases reached

/-- In a run every open frame has a checkpoint. -/
theorem Guards.since {base : List World} (h : Guards w base m) :
    m.Since m.ledger.world m.frames.length := by
  obtain ⟨inner, count, saved⟩ := h
  refine ⟨[], m.ledger.saved, rfl, (Nat.zero_add _).symm, ?_, List.forall_mem_singleton.mpr .refl⟩
  rw [saved, List.length_append, List.length_cons, ← count]
  omega

/-- An instruction that destroys an account is a self-destruct that succeeds. -/
theorem selfDestruct_of_deed {s : Focus} {fetched : Fetched} {a : Address}
    (done : s.deed? host fetched = some (.destroy a)) :
    ∃ entry control s', fetched = .instruction entry ∧ entry.opcode = .selfDestruct ∧
      entry.dispatch host s = .ok control s' := by
  cases fetched with
  | interrupted | endOfCode | illegal => cases done
  | instruction entry =>
      simp only [Focus.deed?] at done
      split at done
      · next control s' dispatched =>
          refine ⟨entry, control, s', rfl, ?_, dispatched⟩
          simp only [Opcode.deed?] at done
          split at done
          · cases done
          · assumption
          · cases done
      · cases done

/-- The iteration in which the innermost frame destroys its account. The base price changes nothing
that the instruction looks at. -/
theorem advance_of_deed {f : Frame} {below : List Frame} {a : Address} (top : m.frames = f :: below)
    (running : f.isRunning = true)
    (done : Focus.deed? ⟨f, m.ledger⟩ host (f.fetch host m.watch.interrupted) = some (.destroy a))
    (advanced : m.advance host = .more m') :
    ∃ f', m'.frames = f' :: below ∧ Focus.GivesUp ⟨f, m.ledger⟩ ⟨f', m'.ledger⟩ := by
  obtain ⟨entry, control, s', fetched, opcode, dispatched⟩ := selfDestruct_of_deed done
  obtain ⟨-, t, pays, -, stack, performed⟩ := OpcodeEntry.dispatch_ok dispatched
  rw [opcode] at performed
  have runs : t.frame.isRunning = true := pays.isRunning.trans running
  obtain ⟨rfl, givesUp⟩ := Opcode.selfDestruct_givesUp runs performed
  have stepped : Focus.step ⟨f, m.ledger⟩ host (.instruction entry) = .ok .halted s' := by
    simp only [Focus.step, dispatched]
    rfl
  simp only [advance, top, running, if_true, fetched, stepped, follow] at advanced
  cases advanced
  exact ⟨s'.frame, rfl, givesUp.of_pays pays stack⟩

/-- In a run from a fresh frame no frame notes an account twice. -/
theorem nodup_destroyed {env : Environment} {target : ReturnTarget} {code : ByteArray}
    {gas : UInt64} {ledger : Ledger} {watch : Watch} {n : Nat} {f : Frame} {below : List Frame}
    (reached : iterate host n ⟨ledger, [Frame.start env target code gas], watch⟩ = .more m)
    (top : m.frames = f :: below) : f.destroyed.Nodup := by
  obtain ⟨c, recorded⟩ := (iterate_holds (P := fun m => ∃ c, Recorded m c)
    (fun _ _ advanced ⟨_, h⟩ => ⟨_, h.step advanced⟩) n ⟨_, recorded_root Deed.told_nil⟩).1 m reached
  obtain ⟨l, frames, watch⟩ := m
  cases top
  obtain ⟨i, rest, numbers⟩ := recorded.openFrames_eq
  have tells := recorded.tells
  rw [numbers] at tells
  obtain ⟨_, _, -, -, -, told, -⟩ := tells
  rw [told.destroyed]
  exact Deed.nodup_eraseDups _

/-- Every self-destruct in favour of another account leaves nothing to its own. Nothing else of any
account changes, and the account is noted for deletion once. As long as the frame that executed it
and those around it do not fail, whatever the account is called for later in the run, it holds and
has spent exactly what it has received since. -/
theorem selfDestruct_leaves_nothing (host : Host) :
    (∀ s s' : Focus, s.frame.isRunning = true →
      Opcode.selfDestruct.perform host s = .ok .halted s' → s.GivesUp s') ∧
    ∀ (env : Environment) (target : ReturnTarget) (code : ByteArray) (gas : UInt64)
      (ledger : Ledger) (watch : Watch) (n : Nat) (m m' : Machine) (f : Frame) (below : List Frame),
      ledger.saved ≠ [] →
      iterate host n ⟨ledger, [Frame.start env target code gas], watch⟩ = .more m →
      m.frames = f :: below → f.isRunning = true →
      Focus.deed? ⟨f, m.ledger⟩ host (f.fetch host m.watch.interrupted) =
        some (.destroy f.env.address) →
      m.advance host = .more m' →
      ∃ f', m'.frames = f' :: below ∧ Focus.GivesUp ⟨f, m.ledger⟩ ⟨f', m'.ledger⟩ ∧
        f'.destroyed.count f.env.address = 1 ∧
        (f.beneficiary ≠ f.env.address →
          ∀ k later, outlived? host k m'.frames.length m' = some later →
            (∃ received spent, World.Flow f.env.address m'.ledger.world later.ledger.world
              received spent) ∧
            ∀ received spent, World.Flow f.env.address m'.ledger.world later.ledger.world
              received spent → (later.ledger.balance f.env.address).toNat + spent = received) := by
  refine ⟨fun s s' running performed => (Opcode.selfDestruct_givesUp running performed).2, ?_⟩
  intro env target code gas ledger watch n m m' f below inside reached top running done advanced
  obtain ⟨f', frames, givesUp⟩ := advance_of_deed top running done advanced
  refine ⟨f', frames, givesUp, givesUp.noted (nodup_destroyed reached top),
    fun other k later survives => ?_⟩
  obtain ⟨start, base, saved⟩ := List.exists_cons_of_ne_nil inside
  have guards : Guards start base m := (iterate_keeps (fun _ _ step => step.guards) n
    (guards_root _ watch saved)).1 m reached
  have writes := ((step_of_more advanced).guards guards).since.outlived survives
  refine ⟨writes.flow _, fun received spent flow => ?_⟩
  have empty : m'.ledger.world.balance f.env.address = 0 := (givesUp.emptied other).1
  have balance := flow.balance
  rw [empty] at balance
  exact balance.trans (Nat.zero_add _)

/-- An account that gives five away to another and is called again with three, which it then holds. -/
theorem selfDestruct_leaves_nothing_called_again :
    let host := Host.ofRules (.ofFork .istanbul) fun _ => none
    let code : ByteArray := ⟨#[
      0x60, 0, 0x60, 0, 0x60, 0, 0x60, 0, 0x60, 0, 0x60, 9, 0x61, 0xff, 0, 0xf1,
      0x60, 0, 0x60, 0, 0x60, 0, 0x60, 0, 0x60, 3, 0x60, 9, 0x61, 0xff, 0, 0xf1]⟩
    let destroys : Account := ⟨5, 0, ⟨#[0x60, 2, 0xff]⟩, 0⟩
    let world := (World.empty.setAccount 7 (some ⟨10, 0, code, 0⟩)).setAccount 9 (some destroys)
    let env : Environment :=
      ⟨.message .call, 7, 7, 1, 1, 0, ByteArray.empty, 0, Block.genesis, 0, false⟩
    let root := Frame.start env (.span 0 0) code 200000
    let start : Machine := ⟨(Ledger.ofWorld world).checkpoint, [root], Watch.start false none⟩
    ∃ m m' later, iterate host 9 start = .more m ∧ m.advance host = .more m' ∧
      outlived? host 9 m'.frames.length m' = some later ∧ later.ledger.balance 9 = 3 ∧
      ∃ received spent, World.Flow 9 m'.ledger.world later.ledger.world received spent ∧
        3 + spent = received := by
  intro host code destroys world env root start
  have found : (after? host 9 start).any (fun m => m.frames.head?.any (fun f =>
      f.isRunning ∧ f.env.address = 9 ∧ f.beneficiary = 2 ∧
      Focus.deed? ⟨f, m.ledger⟩ host (f.fetch host m.watch.interrupted) = some (.destroy 9)) ∧
      (after? host 1 m).any fun m' =>
        (outlived? host 9 m'.frames.length m').any (·.ledger.balance 9 = 3)) = true := by
    decide +kernel
  obtain ⟨m, reached, test⟩ := reached_of_after? found
  obtain ⟨executes, continues⟩ := of_decide_eq_true test
  obtain ⟨f, first, executes⟩ := (Option.any_eq_true ..).mp executes
  obtain ⟨running, own, operand, done⟩ := of_decide_eq_true executes
  obtain ⟨below, top⟩ := List.head?_eq_some_iff.mp first
  obtain ⟨m', advanced, survives⟩ := reached_of_after? continues
  rw [iterate_one] at advanced
  obtain ⟨later, survives, holds⟩ := (Option.any_eq_true ..).mp survives
  have holds : later.ledger.balance 9 = 3 := of_decide_eq_true holds
  have inside : start.ledger.saved ≠ [] := by simp [start]
  obtain ⟨f', -, -, -, leaves⟩ := (selfDestruct_leaves_nothing host).2 env (.span 0 0) code
    200000 _ _ 9 m m' f below inside reached top running (own ▸ done) advanced
  have other : f.beneficiary ≠ f.env.address := by
    rw [own, operand]
    decide
  obtain ⟨⟨received, spent, flow⟩, exactly⟩ := leaves other 9 later survives
  have balance := exactly received spent flow
  rw [own] at flow balance
  rw [holds] at balance
  exact ⟨m, m', later, reached, advanced, survives, holds, received, spent, flow, balance⟩

end Machine
end EvmEngine
