import EvmEngine.Proofs.Engine.Errors
import EvmEngine.Proofs.Machine.Interruption

/-!
The interruption of a message. From the moment the flag is set the run is over within two iterations
for each open frame, and nothing that the message did inside the checkpoint of its outermost frame
is left.
-/

namespace EvmEngine
namespace Engine

variable {host : Host} {block : Block} {message : Message}

/-- A run that a message makes has waiting frames below the innermost one, all of them running. -/
theorem waiting_of_iterate {nonce gas : UInt64} {l l' : Ledger} {root f : Frame} {watch : Watch}
    {n : Nat} {m : Machine} {below : List Frame}
    (set : prepareRoot host block message nonce gas l = .ok (.enter root) l')
    (reached : Machine.iterate host n ⟨l', [root], watch⟩ = .more m)
    (frames : m.frames = f :: below) : ∀ g ∈ below, g.isRunning = true := by
  obtain ⟨-, outermost, -⟩ := (prepareRoot_ensures.ok set).enters
  have chain := (Machine.iterate_keeps (m := ⟨l', [root], watch⟩)
    (P := fun m => Machine.Chain host root.env.tx m.frames) (fun _ _ step => step.chain) n
    (Machine.chain_root outermost)).1 m reached
  rw [frames] at chain
  exact chain.1.waiting

/-- Interruption undoes everything. Where the outermost frame is still running when the flag is set,
the run ends with its failure for lack of gas, within two iterations for each frame that is open then,
and accounts and storage are what they were when its checkpoint was opened: also where frames above
it have ended in success before, or had children that did. -/
theorem interruption_undoes (host : Host) (block : Block) (message : Message) (nonce gas : UInt64)
    (l l' : Ledger) (root : Frame) (watch : Watch) (n : Nat) (m : Machine)
    (set : prepareRoot host block message nonce gas l = .ok (.enter root) l')
    (reached : Machine.iterate host n ⟨l', [root], watch⟩ = .more m)
    (running : ∀ f, m.frames.getLast? = some f → f.isRunning = true)
    (interrupted : Watch) (flag : interrupted.interrupted = true) :
    ∃ result last, Machine.iterate host (2 * m.frames.length) { m with watch := interrupted } =
        .finished result last ∧
      result.verdict = .faulted .outOfGas ∧ result.gasLeft = 0 ∧ result.logs = #[] ∧
      result.destroyed = [] ∧ result.returnData = ByteArray.empty ∧
      last.ledger.world = l.world ∧ last.ledger.depth = l.depth := by
  have sound := (Machine.iterate_keeps (fun _ _ step => step.sound) n
    (sound_of_prepareRoot set watch)).1 m reached
  obtain ⟨ledger, frames, watch'⟩ := m
  cases frames with
  | nil => exact absurd rfl sound.nonempty
  | cons f below =>
      have sound' : Machine.Sound l.world l.saved ⟨ledger, f :: below, interrupted⟩ :=
        ⟨sound.nonempty, sound.roomy, sound.traced⟩
      obtain ⟨gasLimit, last, ended, world, saved⟩ := Machine.undone_of_interrupted below sound' flag
        (waiting_of_iterate set reached rfl) fun alone => running f (by rw [alone]; rfl)
      refine ⟨_, last, ended, rfl, rfl, rfl, rfl, rfl, world, ?_⟩
      rw [← Ledger.length_saved, saved, Ledger.length_saved]

/-- A contract calls another one, which writes to storage and stops; the flag is set when that frame
has ended in success but is not finished. -/
theorem interruption_undoes_store :
    let host := Host.ofRules (.ofFork .istanbul) fun _ => none
    let caller : Account := ⟨0, 0, ⟨#[0x60, 0, 0x60, 0, 0x60, 0, 0x60, 0, 0x60, 0, 0x60, 8, 0x61,
      0x80, 0, 0xf1]⟩, 0⟩
    let stores : Account := ⟨0, 0, ⟨#[0x60, 1, 0x60, 0, 0x55, 0]⟩, 0⟩
    let l := Ledger.ofWorld ((World.empty.setAccount 7 (some caller)).setAccount 8 (some stores))
    let message : Message := ⟨2, some 7, 0, ByteArray.empty, 200000, 0⟩
    let interrupted := Watch.start true none
    ∃ root l' m, prepareRoot host .genesis message 0 100000 l = .ok (.enter root) l' ∧
      Machine.iterate host 12 ⟨l', [root], Watch.start false none⟩ = .more m ∧
      (∀ f, m.frames.getLast? = some f → f.isRunning = true) ∧
      interrupted.interrupted = true ∧ m.ledger.load 8 0 = 1 ∧
      m.frames.head?.map Frame.halt = some .stopped ∧
      ∃ result last, Machine.iterate host 4 { m with watch := interrupted } =
          .finished result last ∧
        result.verdict = .faulted .outOfGas ∧ result.gasLeft = 0 ∧ result.logs = #[] ∧
        result.destroyed = [] ∧ result.returnData = ByteArray.empty ∧
        last.ledger.world = l.world ∧ last.ledger.depth = l.depth := by
  intro host caller stores l message interrupted
  have found : (visit? host .genesis message 0 100000 (Watch.start false none) 12 l).any
      (fun m => m.frames.getLast?.all Frame.isRunning && m.ledger.load 8 0 = 1 &&
        m.frames.head?.map Frame.halt = some .stopped && m.frames.length = 2) = true := by
    decide +kernel
  obtain ⟨root, l', m, set, reached, passes⟩ := reached_of_visit? found
  simp only [Bool.and_eq_true, decide_eq_true_eq] at passes
  obtain ⟨⟨⟨running, stored⟩, stopped⟩, count⟩ := passes
  have outermost (f : Frame) (h : m.frames.getLast? = some f) : f.isRunning = true := by
    simpa only [h, Option.all_some] using running
  have undone := interruption_undoes host .genesis message 0 100000 l l' root _ 12 m set reached
    outermost interrupted rfl
  rw [count] at undone
  exact ⟨root, l', m, set, reached, outermost, rfl, stored, stopped, undone⟩

end Engine
end EvmEngine
