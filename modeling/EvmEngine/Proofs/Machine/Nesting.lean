import EvmEngine.Proofs.Machine.Growth

/-!
The frames that are open together. Each one knows how deeply it is nested, only the innermost does
anything, and whatever is fixed for the transaction, and the ban on changes of the state, is passed
on to the frames above.
-/

namespace EvmEngine
namespace Machine

variable {host : Host} {tx : TxContext} {m m' : Machine}

/-- A frame on top of those that wait for it. -/
structure Tops (host : Host) (tx : TxContext) (below : List Frame) (f : Frame) : Prop where
  depth : f.env.depth = UInt64.ofNat below.length
  limit : f.env.depth ≤ host.rules.maxCallDepth
  tx : f.env.tx = tx
  waiting : ∀ g ∈ below, g.isRunning = true
  static : ∀ g ∈ below, g.env.isStatic = true → f.env.isStatic = true

/-- Frames each of which tops those below it. -/
def Chain (host : Host) (tx : TxContext) : List Frame → Prop
  | [] => True
  | f :: below => Tops host tx below f ∧ Chain host tx below

theorem Tops.replace {below : List Frame} {f f' : Frame} (h : Tops host tx below f)
    (same : f'.env = f.env) : Tops host tx below f' :=
  ⟨same ▸ h.depth, same ▸ h.limit, same ▸ h.tx, h.waiting, same ▸ h.static⟩

/-- The innermost frame may change as long as what was fixed when it was entered stays. -/
theorem Chain.replace {below : List Frame} {f f' : Frame} (h : Chain host tx (f :: below))
    (same : f'.env = f.env) : Chain host tx (f' :: below) :=
  ⟨h.1.replace same, h.2⟩

theorem Chain.enter {below : List Frame} {f child : Frame} {gas : UInt64}
    (h : Chain host tx (f :: below)) (running : f.isRunning = true)
    (entered : child.Entered host f.env gas) : Chain host tx (child :: f :: below) := by
  obtain ⟨top, rest⟩ := h
  refine ⟨⟨?_, entered.limit, entered.tx.trans top.tx, ?_, ?_⟩, top, rest⟩
  · rw [entered.depth, top.depth, List.length_cons, UInt64.ofNat_add]
    rfl
  · intro g member
    obtain rfl | member := List.mem_cons.mp member
    · exact running
    · exact top.waiting g member
  · intro g member static
    obtain rfl | member := List.mem_cons.mp member
    · exact entered.static static
    · exact entered.static (top.static g member static)

theorem chain_root {root : Frame} (outermost : root.env.depth = 0) :
    Chain host root.env.tx [root] :=
  ⟨⟨outermost, by rw [outermost]; exact UInt64.zero_le, rfl, by simp, by simp⟩, trivial⟩

/-- A frame that asks is still running and was entered with the same environment. -/
theorem asking {f f₁ : Frame} {l l₁ : Ledger} {fetched : Fetched} {control : Control}
    {gas : UInt64} {action : Journaled (Prepared × ReturnTarget)} (running : f.isRunning = true)
    (stepped : Focus.step ⟨f, l⟩ host fetched = .ok control ⟨f₁, l₁⟩)
    (asks : control.Asks host f₁.env gas action) : f₁.isRunning = true ∧ f₁.env = f.env := by
  obtain ⟨price, pays⟩ := Focus.step_asks stepped asks
  refine ⟨?_, pays.env⟩
  have same : f₁.halt = f.halt := pays.halt
  simp only [Frame.isRunning] at running ⊢
  rw [same]
  exact running

theorem Step.chain (step : Step host m m') (h : Chain host tx m.frames) :
    Chain host tx m'.frames := by
  cases step with
  | ran running stepped quiet => exact h.replace (Focus.Keeps.of_step_ok stepped).env
  | answered running stepped asks set absorbed =>
      obtain ⟨-, same⟩ := asking running stepped asks
      exact h.replace ((Frame.absorb_ok absorbed).env.trans same)
  | entered running stepped asks set =>
      obtain ⟨waits, same⟩ := asking running stepped asks
      obtain ⟨entered, -⟩ := (Focus.step_entered stepped asks set).enters
      exact (h.replace same).enter waits entered
  | returned ended completed absorbed =>
      exact Chain.replace h.2 (Frame.absorb_ok absorbed).env

/-- Depths count up from the outermost frame, as machine integers. -/
theorem Chain.depth {frames : List Frame} (h : Chain host tx frames) {i : Nat} {f : Frame}
    (place : frames.reverse[i]? = some f) : f.env.depth = UInt64.ofNat i := by
  induction frames with
  | nil => simp at place
  | cons top below ih =>
      rw [List.reverse_cons] at place
      by_cases inner : i < below.reverse.length
      · rw [List.getElem?_append_left inner] at place
        exact ih h.2 place
      · rw [List.getElem?_append_right (Nat.not_lt.mp inner)] at place
        obtain ⟨last, rfl⟩ := List.getElem?_eq_some_iff.mp place
        have count : i = below.length := by
          simp only [List.length_reverse, List.length_singleton] at inner last
          omega
        simpa only [List.getElem_singleton, count] using h.1.depth

/-- The limit on the depth bounds the number of frames, as long as depths do not start again at
zero. -/
theorem Chain.length_le {frames : List Frame} (h : Chain host tx frames)
    (short : host.rules.maxCallDepth.toNat + 1 < UInt64.size ∨ frames.length ≤ UInt64.size) :
    frames.length ≤ host.rules.maxCallDepth.toNat + 1 := by
  induction frames with
  | nil => exact Nat.zero_le _
  | cons top below ih =>
      have few : below.length < UInt64.size := by
        obtain low | few := short
        · have := ih h.2 (.inl low)
          omega
        · exact few
      have limit := UInt64.le_iff_toNat_le.mp h.1.limit
      rw [h.1.depth, UInt64.toNat_ofNat_of_lt' few] at limit
      exact Nat.succ_le_succ limit

theorem Chain.shares {frames : List Frame} (h : Chain host tx frames) :
    ∀ f ∈ frames, f.env.tx = tx := by
  induction frames with
  | nil => simp
  | cons top below ih =>
      intro f member
      obtain rfl | member := List.mem_cons.mp member
      · exact h.1.tx
      · exact ih h.2 f member

theorem Chain.static {frames : List Frame} (h : Chain host tx frames) :
    frames.Pairwise fun above below => below.env.isStatic = true → above.env.isStatic = true := by
  induction frames with
  | nil => exact .nil
  | cons top below ih => exact .cons h.1.static (ih h.2)

/-- The frames of a run, the innermost first, above `base` checkpoints that were open before. -/
structure Nested (host : Host) (root : Frame) (base : Nat) (m : Machine) : Prop where
  checkpoints : m.ledger.depth = base + m.frames.length
  depth : ∀ (i : Nat) (f : Frame), m.frames.reverse[i]? = some f → f.env.depth.toNat = i
  limit : m.frames.length ≤ host.rules.maxCallDepth.toNat + 1
  waiting : ∀ f ∈ m.frames.tail, f.isRunning = true
  origin : ∀ f ∈ m.frames, f.env.origin = root.env.origin
  gasPrice : ∀ f ∈ m.frames, f.env.gasPrice = root.env.gasPrice
  block : ∀ f ∈ m.frames, f.env.block = root.env.block
  static : m.frames.Pairwise fun above below =>
    below.env.isStatic = true → above.env.isStatic = true

theorem Chain.nested {root : Frame} {base : List World} {w : World}
    (h : Chain host root.env.tx m.frames) (guards : Guards w base m)
    (short : host.rules.maxCallDepth.toNat + 1 < UInt64.size ∨ m.frames.length ≤ UInt64.size) :
    Nested host root base.length m := by
  have limit := h.length_le short
  have shared := h.shares
  refine ⟨?_, ?_, limit, ?_, ?_, ?_, ?_, h.static⟩
  · obtain ⟨inner, count, saved⟩ := guards
    rw [← Ledger.length_saved, saved, ← count, List.length_append, List.length_cons]
    omega
  · intro i f place
    obtain ⟨inside, -⟩ := List.getElem?_eq_some_iff.mp place
    rw [List.length_reverse] at inside
    have fits : i < UInt64.size := by
      have := host.rules.maxCallDepth.toNat_lt_size
      omega
    rw [h.depth place, UInt64.toNat_ofNat_of_lt' fits]
  · cases frames : m.frames with
    | nil => simp
    | cons top below =>
        rw [frames] at h
        exact h.1.waiting
  · exact fun f member => congrArg TxContext.origin (shared f member)
  · exact fun f member => congrArg TxContext.gasPrice (shared f member)
  · exact fun f member => congrArg TxContext.block (shared f member)

/-- At the head of every iteration of a run from a frame at depth zero, the open frames are nested
as they should be. A depth is a machine integer; where the limit on it is the largest one of all,
what keeps the depths apart is the number of iterations, and a run that starts with an empty stack
makes no more of them than that. However the run ends, the checkpoints open are those that were open
below its outermost frame. -/
theorem run_nested {host : Host} {root : Frame} {ledger : Ledger} {base : Nat} (watch : Watch)
    (outermost : root.env.depth = 0) (inside : ledger.depth = base + 1) :
    (∀ n m, iterate host n ⟨ledger, [root], watch⟩ = .more m →
      (host.rules.maxCallDepth.toNat + 1 < UInt64.size ∨
        n + root.stack.size ≤ iterationBound root.gas) →
      Nested host root base m) ∧
    (run host root ledger watch).ledger.depth = base := by
  cases saved : ledger.saved with
  | nil =>
      rw [← Ledger.length_saved, saved] at inside
      cases inside
  | cons w rest =>
      rw [← Ledger.length_saved, saved, List.length_cons] at inside
      obtain rfl := Nat.succ.inj inside
      constructor
      · intro n m reached short
        have guards := (iterate_keeps (fun _ _ step => step.guards) n
          (guards_root root watch saved)).1 m reached
        have chain := (iterate_keeps (fun _ _ step => step.chain) n (chain_root outermost)).1 m
          reached
        refine chain.nested guards (short.imp id fun bounded => ?_)
        -- Each open frame weighs four, so that so many iterations cannot open too many of them.
        have weight := weight_of_iterate reached
        have frames := m.length_le_weight
        have held := root.held_le
        have gas := root.gas.toNat_lt_size
        simp only [Machine.weight, List.foldr_cons, List.foldr_nil] at weight frames
        simp only [iterationBound] at bounded
        omega
      · rw [← Ledger.length_saved, (run_restores host root watch saved).1]

/-- A STATICCALL to code that makes a CALL itself. While the last of the three frames is open, each
has its checkpoint, and the ban on changes of the state reaches the last one, which was not called
with it. -/
theorem run_nested_static_call :
    let host := Host.ofRules (.ofFork .istanbul) fun _ => none
    let env : Environment :=
      ⟨.message .call, 1, 1, 2, 2, 0, ByteArray.empty, 0, Block.genesis, 0, false⟩
    let root : Frame :=
      { Frame.start env (.span 0 0) ⟨#[0xfa]⟩ 100000 with stack := ⟨[50000, 7, 0, 0, 0, 0]⟩ }
    let calls : Account :=
      ⟨0, 0, ⟨#[0x60, 0, 0x60, 0, 0x60, 0, 0x60, 0, 0x60, 0, 0x60, 8, 0x5a, 0xf1]⟩, 0⟩
    let writes : Account := ⟨0, 0, ⟨#[0x60, 1, 0x60, 0, 0x55]⟩, 0⟩
    let world := (World.empty.setAccount 7 (some calls)).setAccount 8 (some writes)
    let ledger := (Ledger.ofWorld world).checkpoint
    let watch := Watch.start false none
    root.env.depth = 0 ∧ ledger.depth = 0 + 1 ∧
      (∃ m, iterate host 10 ⟨ledger, [root], watch⟩ = .more m ∧
        m.frames.map (·.env.depth) = [2, 1, 0] ∧ m.frames.map (·.env.kind) =
          [.message .call, .message .staticCall, .message .call] ∧
        m.frames.map (·.env.isStatic) = [true, true, false] ∧ m.ledger.depth = 3 ∧
        Nested host root 0 m) ∧
      (run host root ledger watch).ledger.depth = 0 := by
  intro host env root calls writes world ledger watch
  obtain ⟨nested, closed⟩ := @run_nested host root ledger 0 watch rfl rfl
  have low : host.rules.maxCallDepth.toNat + 1 < UInt64.size := by decide
  have opens : (after? host 10 ⟨ledger, [root], watch⟩).any (fun m =>
      decide (m.frames.map (·.env.depth) = [2, 1, 0] ∧ m.frames.map (·.env.kind) =
          [.message .call, .message .staticCall, .message .call] ∧
        m.frames.map (·.env.isStatic) = [true, true, false] ∧ m.ledger.depth = 3)) = true := by
    decide +kernel
  obtain ⟨m, reached, test⟩ := reached_of_after? opens
  obtain ⟨depths, kinds, statics, checkpoints⟩ := of_decide_eq_true test
  exact ⟨rfl, rfl,
    ⟨m, reached, depths, kinds, statics, checkpoints, nested 10 m reached (.inl low)⟩, closed⟩

end Machine
end EvmEngine
