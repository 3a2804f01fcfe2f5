import EvmEngine.Proofs.Instruction.Payments
import EvmEngine.Proofs.Machine.FailedChild
import Mathlib.Algebra.Order.BigOperators.Group.List

/-!
Memory is paid for once. Beside the machine a list of payments is kept for each open frame: what the
charges of its instructions took, in the order in which they were made. The payments of a frame form
a chain from an empty memory to the memory it has, so that nothing but a charge makes memory grow,
neither a write nor the output of another frame; and together they are the price of that memory.
-/

namespace EvmEngine

open Effects Payment

namespace Frame

variable {f : Frame} {target : ReturnTarget}

theorem size_receive (fits : target.Fits f.memory) (result : CallResult) :
    (f.receive result target).memory.size = f.memory.size := by
  cases target with
  | span offset length => exact Memory.Covers.size_extendAndWrite fits _
  | account address => rfl

/-- Output goes where memory has grown already, whether or not the frame can be told the outcome. -/
theorem size_absorb (fits : target.Fits f.memory) (result : CallResult) :
    (endState (absorb result target) f).memory.size = f.memory.size := by
  simp only [endState, absorb_eq]
  split
  · next taken =>
      split at taken
      · cases taken
      · cases taken
        rw [memory_resumed]
        exact size_receive fits result
  · next refused =>
      split at refused
      · cases refused
        exact size_receive fits result
      · cases refused

end Frame

namespace Focus

variable {host : Host} {fetched : Fetched} {control : Control} {payments : List Payment}
  {s s' : Focus}

/-- What the next instruction of a frame pays for memory. -/
def Billed (s : Focus) (host : Host) (fetched : Fetched) (payments : List Payment) : Prop :=
  match fetched with
  | .instruction entry => Exec.Billed host.rules.gas (entry.dispatch host) s payments
  | .interrupted | .endOfCode | .illegal _ => payments = []

/-- The memory and the gas that a step leaves are those its instruction leaves, which lends only where
it succeeds. -/
theorem end_of_step {entry : OpcodeEntry}
    (stepped : s.step host (.instruction entry) = .ok control s') :
    s'.frame.memory = (endState (entry.dispatch host) s).frame.memory ∧
      s'.frame.gas = (endState (entry.dispatch host) s).frame.gas ∧
      (control.lent = 0 ∨ ∃ t, entry.dispatch host s = .ok control t) := by
  simp only [step] at stepped
  split at stepped
  · next t ran =>
      cases stepped
      rw [endState_ok ran]
      refine ⟨?_, ?_, .inr ⟨t, ran⟩⟩ <;> split <;> rfl
  · next t failed =>
      cases stepped
      rw [endState_error failed]
      refine ⟨?_, ?_, .inl rfl⟩ <;> simp only [Frame.halted] <;> split <;> rfl
  · cases stepped

/-- Every list of payments of one step leads from the memory before it to the memory after it, and
was paid on top of what the frame lends. -/
theorem Billed.step (covers : host.rules.gas.CoversStipend) (billed : s.Billed host fetched payments)
    (stepped : s.step host fetched = .ok control s') :
    Reaches host.rules.gas s.frame.memory.size payments s'.frame.memory.size ∧
      s'.frame.gas.toNat + total payments + control.lent.toNat ≤ s.frame.gas.toNat := by
  cases fetched with
  | interrupted | endOfCode | illegal =>
      obtain rfl := billed
      cases stepped
      simp only [Frame.halted]
      split <;> exact ⟨rfl, Nat.le_refl _⟩
  | instruction entry =>
      obtain ⟨reaches, paid⟩ := Exec.Billed.reaches billed
      obtain ⟨memory, gas, nothing | ⟨t, ran⟩⟩ := end_of_step stepped
      · rw [memory, gas, nothing]
        exact ⟨reaches, paid⟩
      · obtain ⟨more, billed', lends⟩ := entry.settles_dispatch
          (Instruction.stipend_le_callSurcharge covers) s
        have same := reaches.total_eq.trans billed'.reaches.1.total_eq.symm
        have lent := lends control t ran
        rw [memory, gas]
        refine ⟨reaches, ?_⟩
        rw [endState_ok ran]
        omega

theorem exists_billed (covers : host.rules.gas.CoversStipend) (s : Focus) (fetched : Fetched) :
    ∃ payments, s.Billed host fetched payments := by
  cases fetched with
  | interrupted | endOfCode | illegal => exact ⟨[], rfl⟩
  | instruction entry =>
      obtain ⟨payments, billed, -⟩ := entry.settles_dispatch
        (Instruction.stipend_le_callSurcharge covers) s
      exact ⟨payments, billed⟩

end Focus

theorem Control.Asks.lent_eq {host : Host} {env : Environment} {control : Control} {gas : UInt64}
    {action : Journaled (Prepared × ReturnTarget)} (asks : control.Asks host env gas action) :
    control.lent = gas := by
  cases asks <;> rfl

namespace Machine

variable {host : Host} {m m' root : Machine} {bills bills' : List (List Payment)} {limit : Nat}

/-- What an iteration adds to the payments of the open frames, the innermost first. An instruction
adds its own to those of the innermost frame; a frame that is entered has paid nothing yet; and the
payments of a frame that is finished are put away. -/
def Accrues (host : Host) (m m' : Machine) (bills bills' : List (List Payment)) : Prop :=
  match m.frames, bills with
  | f :: below, own :: others =>
      if f.isRunning then
        ∃ payments, Focus.Billed ⟨f, m.ledger⟩ host (f.fetch host m.watch.interrupted) payments ∧
          bills' =
            if (f :: below).length < m'.frames.length then [] :: (own ++ payments) :: others
            else (own ++ payments) :: others
      else bills' = others
  | _, _ => False

/-- The payments of the open frames at some point of a run. -/
inductive Accrued (host : Host) (root : Machine) : Machine → List (List Payment) → Prop
  | start : Accrued host root root (root.frames.map fun _ => [])
  | next {m m' : Machine} {bills bills' : List (List Payment)} (before : Accrued host root m bills)
      (advanced : m.advance host = .more m') (accrues : Accrues host m m' bills bills') :
      Accrued host root m' bills'

theorem Accrues.running {f : Frame} {below : List Frame} {l : Ledger} {watch : Watch}
    (accrues : Accrues host ⟨l, f :: below, watch⟩ m' bills bills') (running : f.isRunning = true) :
    ∃ own others payments, bills = own :: others ∧
      Focus.Billed ⟨f, l⟩ host (f.fetch host watch.interrupted) payments ∧
      bills' = if (f :: below).length < m'.frames.length then [] :: (own ++ payments) :: others
        else (own ++ payments) :: others := by
  cases bills with
  | nil => exact accrues.elim
  | cons own others =>
      simp only [Accrues, running, if_true] at accrues
      obtain ⟨payments, billed, same⟩ := accrues
      exact ⟨own, others, payments, rfl, billed, same⟩

theorem Accrues.ended {f : Frame} {below : List Frame} {l : Ledger} {watch : Watch}
    (accrues : Accrues host ⟨l, f :: below, watch⟩ m' bills bills') (ended : f.isRunning = false) :
    ∃ own, bills = own :: bills' := by
  cases bills with
  | nil => exact accrues.elim
  | cons own others =>
      simp only [Accrues, ended] at accrues
      obtain rfl : bills' = others := accrues
      exact ⟨own, rfl⟩

/-- Each open frame has paid for the memory it has, all of it out of the gas of the outermost one,
while so much gas is on its way from one frame to another; and what a waiting frame is to be given
goes where its memory has grown already. -/
structure PaidUp (host : Host) (limit moved : Nat) (frames : List Frame)
    (bills : List (List Payment)) : Prop where
  paid : List.Forall₂ (fun f payments => Reaches host.rules.gas 0 payments f.memory.size) frames bills
  budget : gasOf frames + (bills.map total).sum + moved ≤ limit
  fits : frames.IsChain fun f parent => f.target.Fits parent.memory

namespace PaidUp

variable {f f' : Frame} {frames below : List Frame} {moved : Nat} {own : List Payment}

theorem fits_replace (h : PaidUp host limit moved (f :: below) bills) (same : f'.target = f.target) :
    (f' :: below).IsChain fun f parent => f.target.Fits parent.memory := by
  have chain := h.fits
  cases below with
  | nil => exact .singleton f'
  | cons parent below =>
      obtain ⟨fits, rest⟩ := List.isChain_cons_cons.mp chain
      exact List.isChain_cons_cons.mpr ⟨same ▸ fits, rest⟩

/-- An instruction pays for the growth of memory out of the gas of its frame. -/
theorem instruction {l l' : Ledger} {fetched : Fetched} {control : Control}
    {payments : List Payment} (covers : host.rules.gas.CoversStipend)
    (h : PaidUp host limit 0 (f :: below) (own :: bills))
    (billed : Focus.Billed ⟨f, l⟩ host fetched payments)
    (stepped : Focus.step ⟨f, l⟩ host fetched = .ok control ⟨f', l'⟩) :
    PaidUp host limit control.lent.toNat (f' :: below) ((own ++ payments) :: bills) := by
  obtain ⟨earlier, rest⟩ := List.forall₂_cons.mp h.paid
  obtain ⟨reaches, spent⟩ := billed.step covers stepped
  refine ⟨.cons (earlier.append reaches) rest, ?_,
    h.fits_replace (Focus.Keeps.of_step_ok stepped).target⟩
  have budget := h.budget
  simp only [gasOf, List.foldr_cons, List.map_cons, List.sum_cons, total_append] at budget ⊢
  dsimp only at spent
  omega

/-- A result brings back no more gas than was on its way, and its output makes no memory grow. -/
theorem absorb {result : CallResult} {target : ReturnTarget} {u : Unit}
    (h : PaidUp host limit moved (f :: below) bills) (fits : target.Fits f.memory)
    (absorbed : Frame.absorb result target f = .ok u f')
    (left : result.gasLeft.toNat ≤ moved) : PaidUp host limit 0 (f' :: below) bills := by
  have size := Frame.size_absorb fits result
  rw [endState_ok absorbed] at size
  have resumes := Frame.absorb_ok absorbed
  have gained := Gas.toNat_satAdd_le f.gas result.gasLeft
  obtain ⟨own, others, earlier, rest, rfl⟩ := List.forall₂_cons_left_iff.mp h.paid
  refine ⟨.cons (size ▸ earlier) rest, ?_, h.fits_replace resumes.target⟩
  have budget := h.budget
  simp only [gasOf, List.foldr_cons, resumes.gas] at budget ⊢
  omega

/-- A frame is entered with the gas that was on its way and without memory. -/
theorem enter {child : Frame} {env : Environment} {gas : UInt64}
    (h : PaidUp host limit gas.toNat (f :: below) bills) (entered : child.Entered host env gas)
    (fits : child.target.Fits f.memory) :
    PaidUp host limit 0 (child :: f :: below) ([] :: bills) := by
  have empty : child.memory.size = 0 := by
    rw [entered.fresh]
    rfl
  refine ⟨.cons empty h.paid, ?_, List.isChain_cons_cons.mpr ⟨fits, h.fits⟩⟩
  have budget := h.budget
  simp only [gasOf, List.foldr_cons, List.map_cons, List.sum_cons, total_nil,
    entered.gas.1] at budget ⊢
  omega

theorem finish (h : PaidUp host limit 0 (f :: below) (own :: bills)) :
    PaidUp host limit f.gas.toNat below bills := by
  refine ⟨(List.forall₂_cons.mp h.paid).2, ?_, h.fits.tail⟩
  have budget := h.budget
  simp only [gasOf, List.foldr_cons, List.map_cons, List.sum_cons] at budget ⊢
  omega

theorem step (covers : host.rules.gas.CoversStipend) (h : PaidUp host limit 0 m.frames bills)
    (step : Step host m m') (accrues : Accrues host m m' bills bills') :
    PaidUp host limit 0 m'.frames bills' := by
  cases step with
  | ran running stepped quiet =>
      obtain ⟨own, others, payments, rfl, billed, rfl⟩ := accrues.running running
      have pays := h.instruction covers billed stepped
      rw [Control.lent_of_quiet quiet] at pays
      rw [if_neg (by simp)]
      exact pays
  | @answered _ _ _ _ _ _ _ _ _ _ _ _ result _ running stepped asks set absorbed =>
      obtain ⟨own, others, payments, rfl, billed, rfl⟩ := accrues.running running
      have pays := h.instruction covers billed stepped
      have returns := ((Focus.step_prepares stepped asks).ok set).1
      have left := (Focus.step_answered stepped asks set).accounts.gasLeft_le
      rw [if_neg (by simp)]
      refine pays.absorb (Focus.step_fits stepped returns) absorbed ?_
      rw [asks.lent_eq]
      exact UInt64.le_iff_toNat_le.mp left
  | entered running stepped asks set =>
      obtain ⟨own, others, payments, rfl, billed, rfl⟩ := accrues.running running
      have pays := h.instruction covers billed stepped
      obtain ⟨entered, returns, -⟩ := (Focus.step_entered stepped asks set).enters
      rw [asks.lent_eq] at pays
      rw [if_pos (by simp)]
      exact pays.enter entered (Focus.step_fits stepped returns)
  | returned ended completed absorbed =>
      obtain ⟨own, rfl⟩ := accrues.ended ended
      obtain ⟨fits, -⟩ := List.isChain_cons_cons.mp h.fits
      have left := UInt64.le_iff_toNat_le.mp (Frame.gasLeft_complete_le completed)
      exact h.finish.absorb fits absorbed left

/-- What is paid for a memory is its price. -/
theorem prices (h : PaidUp host limit moved frames bills) :
    bills.map total = frames.map fun f => host.rules.gas.memoryPrice f.memory.size := by
  have paid := h.paid
  clear h
  induction paid with
  | nil => rfl
  | cons reaches rest ih =>
      rw [List.map_cons, List.map_cons, ih, ← reaches.total_eq, GasSchedule.memoryPrice_zero,
        Nat.zero_add]

/-- No memory costs more than the outermost frame had. -/
theorem memoryPrice_le (h : PaidUp host limit moved frames bills) :
    ∀ f ∈ frames, host.rules.gas.memoryPrice f.memory.size ≤ limit := by
  intro f member
  have budget := h.budget
  rw [h.prices] at budget
  have share := List.single_le_sum (fun _ _ => Nat.zero_le _) _
    (List.mem_map_of_mem (f := fun f => host.rules.gas.memoryPrice f.memory.size) member)
  omega

/-- An iteration can always be accounted for. -/
theorem exists_accrues (covers : host.rules.gas.CoversStipend)
    (h : PaidUp host limit 0 m.frames bills) (step : Step host m m') :
    ∃ bills', Accrues host m m' bills bills' := by
  obtain ⟨l, frames, watch⟩ := m
  cases frames with
  | nil => cases step
  | cons f below =>
      obtain ⟨own, others, -, -, rfl⟩ := List.forall₂_cons_left_iff.mp h.paid
      obtain ⟨payments, billed⟩ := Focus.exists_billed covers ⟨f, l⟩
        (f.fetch host watch.interrupted)
      simp only [Accrues]
      split
      · exact ⟨_, payments, billed, rfl⟩
      · exact ⟨others, rfl⟩

end PaidUp

theorem paidUp_root (env : Environment) (target : ReturnTarget) (code : ByteArray) (gas : UInt64) :
    PaidUp host gas.toNat 0 [Frame.start env target code gas] [[]] where
  paid := .cons rfl .nil
  budget := Nat.le_refl _
  fits := .singleton _

/-- Whatever lists of payments are kept beside a run, they are those of frames that have paid for
their memory. -/
theorem Accrued.paidUp (covers : host.rules.gas.CoversStipend) (h : Accrued host root m bills)
    (start : PaidUp host limit 0 root.frames (root.frames.map fun _ => [])) :
    PaidUp host limit 0 m.frames bills := by
  induction h with
  | start => exact start
  | next before advanced accrues ih => exact ih.step covers (step_of_more advanced) accrues

/-- Payments can be kept beside every run. -/
theorem exists_accrued (covers : host.rules.gas.CoversStipend)
    (start : PaidUp host limit 0 root.frames (root.frames.map fun _ => [])) {n : Nat}
    (reached : iterate host n root = .more m) : ∃ bills, Accrued host root m bills := by
  refine (iterate_holds (P := fun m => ∃ bills, Accrued host root m bills)
    (fun m m' advanced ⟨bills, accrued⟩ => ?_) n ⟨_, .start⟩).1 m reached
  obtain ⟨bills', accrues⟩ := (accrued.paidUp covers start).exists_accrues covers
    (step_of_more advanced)
  exact ⟨bills', .next accrued advanced accrues⟩

/-- A memory whose price is within the bound has an address for each of its bytes. -/
theorem size_lt_of_memoryPrice (fork : Fork) {size : Nat}
    (cheap : (GasSchedule.ofFork fork).memoryPrice size < 2 ^ 60) : size < UInt64.size := by
  have dear : 2 ^ 60 ≤ (GasSchedule.ofFork fork).memoryPrice UInt64.size := by
    cases fork <;> decide
  refine Nat.lt_of_not_le fun large => ?_
  have more := (GasSchedule.ofFork fork).memoryPrice_mono large
  omega

/-- Under the prices of an upgrade, and with less than 2^60 gas, payments can be kept beside every run;
and at every point of it, for each open frame: the payments lead in a chain of charges from no memory
at all to the memory of the frame, together they are the price of that memory, which is the same in
however many steps memory grows, and the memory stays within the range of machine integers. No output
that a waiting frame is ever handed makes its memory grow. -/
theorem memory_paid_once (fork : Fork) (blockHash : UInt64 → Option Hash) (env : Environment)
    (target : ReturnTarget) (code : ByteArray) {gas : UInt64} (small : gas.toNat < 2 ^ 60)
    (ledger : Ledger) (watch : Watch) {n : Nat}
    (reached : iterate (Host.ofRules (.ofFork fork) blockHash) n
      ⟨ledger, [Frame.start env target code gas], watch⟩ = .more m) :
    let host := Host.ofRules (.ofFork fork) blockHash
    let root : Machine := ⟨ledger, [Frame.start env target code gas], watch⟩
    let word := (GasSchedule.ofFork fork).memoryWord
    let divisor := (GasSchedule.ofFork fork).memoryQuadDivisor
    (∃ bills, Accrued host root m bills) ∧
      (∀ bills, Accrued host root m bills →
        List.Forall₂ (fun f payments =>
          Reaches (GasSchedule.ofFork fork) 0 payments f.memory.size) m.frames bills ∧
        bills.map total = m.frames.map fun f =>
          (Gas.memoryCost (Gas.ofLength f.memory.words) word divisor).toNat) ∧
      (∀ f ∈ m.frames, f.memory.size < UInt64.size) ∧
      (m.frames.IsChain fun f parent => ∀ result,
        (endState (Frame.absorb result f.target) parent).memory.size = parent.memory.size) ∧
      ∀ old middle new : UInt64, old ≤ middle → middle ≤ new →
        (Gas.memoryExpansionCost old middle word divisor).toNat +
            (Gas.memoryExpansionCost middle new word divisor).toNat =
          (Gas.memoryExpansionCost old new word divisor).toNat := by
  intro host root word divisor
  have covers : host.rules.gas.CoversStipend := GasSchedule.coversStipend_ofFork fork
  have start : PaidUp host gas.toNat 0 root.frames (root.frames.map fun _ => []) :=
    paidUp_root env target code gas
  obtain ⟨bills, accrued⟩ := exists_accrued covers start reached
  have paidUp := accrued.paidUp covers start
  refine ⟨⟨bills, accrued⟩, fun bills accrued => ?_, fun f member => ?_, ?_, ?_⟩
  · have paidUp := accrued.paidUp covers start
    exact ⟨paidUp.paid, paidUp.prices⟩
  · have within := paidUp.memoryPrice_le f member
    exact size_lt_of_memoryPrice fork (Nat.lt_of_le_of_lt within small)
  · exact paidUp.fits.imp fun f parent fits result => Frame.size_absorb fits result
  · intro old middle new le le'
    have first := Gas.memoryCost_mono word divisor le
    have second := Gas.memoryCost_mono word divisor le'
    simp only [Gas.toNat_memoryExpansionCost]
    omega

/-- A frame that has called another one, with three words of memory for the output, while the other one
has written its first word. -/
theorem memory_paid_once_nested :
    let host := Host.ofRules (.ofFork .istanbul) fun _ => none
    let env : Environment :=
      ⟨.message .call, 1, 1, 2, 2, 0, ByteArray.empty, 0, Block.genesis, 0, false⟩
    let callee : Account := ⟨0, 0, ⟨#[0x60, 1, 0x60, 0, 0x52]⟩, 0⟩
    let ledger := (Ledger.ofWorld (World.empty.setAccount 7 (some callee))).checkpoint
    let code : ByteArray :=
      ⟨#[0x60, 32, 0x60, 64, 0x60, 0, 0x60, 0, 0x60, 0, 0x60, 7, 0x61, 0xc3, 0x50, 0xf1]⟩
    let root : Machine := ⟨ledger, [Frame.start env (.span 0 0) code 100000], Watch.start false none⟩
    (100000 : UInt64).toNat < 2 ^ 60 ∧ ∃ m, iterate host 11 root = .more m ∧
      ∃ bills, Accrued host root m bills ∧ bills.map total = [3, 9] := by
  intro host env callee ledger code root
  have small : (100000 : UInt64).toNat < 2 ^ 60 := by decide
  have sizes : (after? host 11 root).any (fun m =>
      m.frames.map (fun f => f.memory.words) == [1, 3]) = true := by decide +kernel
  obtain ⟨m, reached, words⟩ := reached_of_after? sizes
  obtain ⟨⟨bills, accrued⟩, all, -⟩ := memory_paid_once .istanbul (fun _ => none) env (.span 0 0)
    code small ledger (Watch.start false none) reached
  refine ⟨small, m, reached, bills, accrued, ?_⟩
  have prices := (all bills accrued).2
  have words : m.frames.map (fun f => f.memory.words) = [1, 3] := beq_iff_eq.mp words
  rw [prices, ← Function.comp_def (fun w => (Gas.memoryCost (Gas.ofLength w) _ _).toNat),
    ← List.map_map, words]
  decide

end Machine
end EvmEngine
