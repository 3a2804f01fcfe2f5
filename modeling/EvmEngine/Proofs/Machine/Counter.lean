import EvmEngine.Proofs.Instruction.Counter
import EvmEngine.Proofs.Machine.Checkpoints

/-!
The counters of the open frames. Each one stands where an instruction of its code begins, or after
the last one, whatever the frames above do: it never enters the operand of a push.
-/

namespace EvmEngine

/-- The marks of the frame are those of its code, and its counter stands where an instruction
begins. Counters are machine integers, which count the bytes of any code that a machine can hold. -/
structure Frame.Aligned (f : Frame) : Prop where
  marks : f.jumpDests = JumpDests.ofCode f.code
  counter : f.code.size < 2 ^ 63 → Boundary f.code f.pc

namespace Frame

variable {f f' : Frame}

theorem aligned_start (env : Environment) (target : ReturnTarget) (code : ByteArray)
    (gas : UInt64) : (start env target code gas).Aligned :=
  ⟨rfl, fun _ => .start⟩

theorem Aligned.proceeds (h : f.Aligned) (proceeds : f.Proceeds f') : f'.Aligned := by
  refine ⟨by rw [proceeds.jumpDests, proceeds.code, h.marks], fun fits => ?_⟩
  rw [proceeds.code] at fits ⊢
  obtain stays | marked | ⟨byte, here, moved⟩ := proceeds.pc
  · exact stays ▸ h.counter fits
  · rw [h.marks] at marked
    exact ((JumpDests.contains_ofCode_iff f.code f'.pc).mp marked).1
  · -- The operand of the last push may end outside the code, but not where counters end.
    obtain ⟨inside, -⟩ := getElem?_eq_some_iff.mp here
    have short := pushSize?_le byte
    have exact : f'.pc = f.pc + 1 + (pushSize? byte).getD 0 := by
      rw [moved, Nat.min_eq_left]
      simp only [UInt64.size]
      omega
    exact exact ▸ (h.counter fits).next here

theorem stays_resumed (f : Frame) (result : CallResult) (target : ReturnTarget) :
    f.Stays (f.resumed result target) := by
  have received : f.Stays (f.receive result target) := by
    cases target <;> exact ⟨rfl, rfl, rfl⟩
  have told : f.Stays { f.receive result target with
      stack := ⟨result.flag target :: f.stack.words⟩ } := received.trans ⟨rfl, rfl, rfl⟩
  simp only [resumed]
  split
  · obtain ⟨destroyed, merged⟩ := merge_eq
      { f.receive result target with stack := ⟨result.flag target :: f.stack.words⟩ } result
    rw [merged]
    exact told.trans ⟨rfl, rfl, rfl⟩
  · exact told

theorem Aligned.absorb {result : CallResult} {target : ReturnTarget} {u : Unit} (h : f.Aligned)
    (absorbed : Frame.absorb result target f = .ok u f') : f'.Aligned :=
  h.proceeds (absorb_eq_ok absorbed ▸ (f.stays_resumed result target).proceeds)

end Frame

namespace Machine

variable {host : Host} {m m' : Machine}

theorem Step.aligned (step : Step host m m') (h : ∀ f ∈ m.frames, f.Aligned) :
    ∀ f ∈ m'.frames, f.Aligned := by
  cases step with
  | ran running stepped quiet =>
      rw [List.forall_mem_cons] at h ⊢
      exact ⟨h.1.proceeds (Focus.step_proceeds stepped), h.2⟩
  | answered running stepped asks set absorbed =>
      rw [List.forall_mem_cons] at h ⊢
      exact ⟨(h.1.proceeds (Focus.step_proceeds stepped)).absorb absorbed, h.2⟩
  | @entered f f₁ child below l l₁ l' watch watch' control gas action target running stepped asks
      set =>
      rw [List.forall_mem_cons] at h
      rw [List.forall_mem_cons, List.forall_mem_cons]
      obtain ⟨entered, -⟩ := (Focus.step_entered stepped asks set).enters
      refine ⟨?_, h.1.proceeds (Focus.step_proceeds stepped), h.2⟩
      rw [entered.fresh]
      exact Frame.aligned_start _ _ _ _
  | returned ended completed absorbed =>
      rw [List.forall_mem_cons, List.forall_mem_cons] at h
      rw [List.forall_mem_cons]
      exact ⟨h.2.1.absorb absorbed, h.2.2⟩

theorem aligned_of_iterate {n : Nat} (h : ∀ f ∈ m.frames, f.Aligned)
    (reached : iterate host n m = .more m') : ∀ f ∈ m'.frames, f.Aligned :=
  (iterate_keeps (P := fun m => ∀ f ∈ m.frames, f.Aligned) (fun _ _ step => step.aligned) n h).1
    m' reached

/-- A jump may go to a jump marker that is an instruction and to no other place, and at the head of
every iteration of a run the counter of every open frame stands where a sweep of its code from the
start comes by, so that what is executed there is never the operand of a push. -/
theorem counter_at_boundary :
    (∀ (code : ByteArray) (p : Nat), (JumpDests.ofCode code).contains p = true ↔
      Boundary code p ∧ p < code.size ∧ code[p]? = some 0x5b) ∧
    ∀ (host : Host) (env : Environment) (target : ReturnTarget) (code : ByteArray) (gas : UInt64)
      (ledger : Ledger) (watch : Watch) (n : Nat) (m : Machine),
      iterate host n ⟨ledger, [Frame.start env target code gas], watch⟩ = .more m →
      ∀ f ∈ m.frames, f.code.size < 2 ^ 63 → Boundary f.code f.pc := by
  constructor
  · intro code p
    rw [JumpDests.contains_ofCode_iff]
    refine and_congr_right fun _ => ⟨fun here => ?_, fun here => here.2⟩
    obtain ⟨inside, -⟩ := getElem?_eq_some_iff.mp here
    exact ⟨inside, here⟩
  · intro host env target code gas ledger watch n m reached f member fits
    have start : ∀ f ∈ [Frame.start env target code gas], f.Aligned := by
      rw [List.forall_mem_singleton]
      exact Frame.aligned_start env target code gas
    exact (aligned_of_iterate start reached f member).counter fits

/-- Code that jumps over a jump marker in the operand of a push, and ends in a push whose operand is
cut short. The first marker is not marked for jumps, and after the last push the counter stands
outside the code. -/
theorem counter_at_boundary_cut_short :
    let host := Host.ofRules (.ofFork .istanbul) fun _ => none
    let env : Environment :=
      ⟨.message .call, 1, 1, 2, 2, 0, ByteArray.empty, 0, Block.genesis, 0, false⟩
    let code : ByteArray := ⟨#[0x60, 5, 0x56, 0x60, 0x5b, 0x5b, 0x62, 0x5b]⟩
    let root := Frame.start env (.span 0 0) code 100
    let m : Machine := ⟨(Ledger.ofWorld .empty).checkpoint, [root], Watch.start false none⟩
    (JumpDests.ofCode code).contains 4 = false ∧ (JumpDests.ofCode code).contains 5 = true ∧
      ¬Boundary code 4 ∧ ∃ last, iterate host 4 m = .more last ∧
      ∃ f ∈ last.frames, f.code = code ∧ f.pc = 10 ∧ f.code.size < 2 ^ 63 ∧
        Boundary f.code f.pc := by
  intro host env code root m
  obtain ⟨marked, reaches⟩ := counter_at_boundary
  have hidden : (JumpDests.ofCode code).contains 4 = false := by decide +kernel
  have stands : (after? host 4 m).any (fun last => last.frames.any fun f =>
      f.code = code && f.pc = 10) = true := by decide +kernel
  obtain ⟨last, reached, found⟩ := reached_of_after? stands
  obtain ⟨f, member, same⟩ := List.any_eq_true.mp found
  simp only [Bool.and_eq_true, decide_eq_true_eq] at same
  have fits : f.code.size < 2 ^ 63 := by
    rw [same.1]
    decide
  refine ⟨hidden, by decide +kernel, fun inside => ?_, last, reached, f, member, same.1, same.2,
    fits, reaches host env _ code 100 _ _ 4 last reached f member fits⟩
  have := (marked code 4).mpr ⟨inside, by decide, by decide⟩
  rw [hidden] at this
  cases this

end Machine
end EvmEngine
