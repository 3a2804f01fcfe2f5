import EvmEngine.Proofs.Engine.Estimate
import EvmEngine.Proofs.Engine.Gas
import EvmEngine.Proofs.Engine.Lockstep
import EvmEngine.Proofs.Ledger.Snapshots

/-!
The search for a gas limit. Every probe is undone, so that each is made on what the first one was made
on, and each halves the gap between a limit that is too low and one that is enough; so the search
ends with the two next to each other, after no more rounds than a machine integer has bits.
-/

namespace EvmEngine

open Effects

/-- The flag is as given and will not change: it is set already, or nothing is going to set it. -/
structure Watch.Settled (flag : Bool) (w : Watch) : Prop where
  interrupted : w.interrupted = flag
  quiet : flag = true ∨ w.interruptAfter = none

theorem Watch.Settled.dispatch {flag : Bool} {w : Watch} (h : w.Settled flag) (event : Event) :
    (w.dispatch event).Settled flag := by
  refine ⟨?_, h.quiet⟩
  rw [Watch.dispatch, h.interrupted]
  obtain set | never := h.quiet
  · rw [set, Bool.true_or]
  · rw [never, Option.any_none, Bool.or_false]

theorem Watch.bisimulation_settled (flag : Bool) :
    Watch.Bisimulation fun w w' => w.Settled flag ∧ w'.Settled flag where
  interrupted h := h.2.interrupted.trans h.1.interrupted.symm
  dispatch h event := ⟨h.1.dispatch event, h.2.dispatch event⟩

namespace Gas

theorem toNat_dataGas_le {gas : GasSchedule} {bound : Nat} (zero : gas.txDataZero.toNat ≤ bound)
    (nonZero : gas.txDataNonZero.toNat ≤ bound) (data : ByteArray) :
    (data.data.foldl (fun sum b => sum + if b = 0 then gas.txDataZero else gas.txDataNonZero)
      0).toNat ≤ bound * data.size := by
  refine Array.foldl_induction (fun i (sum : UInt64) => sum.toNat ≤ bound * i) (Nat.le_refl _)
    fun i sum within => ?_
  have price : (if data.data[i] = 0 then gas.txDataZero else gas.txDataNonZero).toNat ≤ bound := by
    split
    · exact zero
    · exact nonZero
  rw [UInt64.toNat_add, Nat.mul_succ]
  exact (Nat.mod_le _ _).trans (Nat.add_le_add within price)

/-- Every message has a price, and data is too cheap for a sum to wrap round to nothing. -/
theorem intrinsic_ofFork_pos (fork : Fork) {data : ByteArray} (isCreate : Bool)
    (fits : data.size < 2 ^ 57) : 0 < intrinsic (.ofFork fork) data isCreate := by
  obtain ⟨zero, nonZero⟩ : (GasSchedule.ofFork fork).txDataZero.toNat ≤ 68 ∧
      (GasSchedule.ofFork fork).txDataNonZero.toNat ≤ 68 := by
    cases fork <;> decide
  obtain ⟨positive, base⟩ : 0 < (if isCreate then (GasSchedule.ofFork fork).txCreate
        else (GasSchedule.ofFork fork).tx).toNat ∧
      (if isCreate then (GasSchedule.ofFork fork).txCreate
        else (GasSchedule.ofFork fork).tx).toNat ≤ 53000 := by
    cases fork <;> cases isCreate <;> decide
  have sum := toNat_dataGas_le zero nonZero data
  have size : UInt64.size = 2 ^ 64 := rfl
  rw [UInt64.lt_iff_toNat_lt, intrinsic, toNat_add_of_lt (by omega)]
  exact Nat.lt_of_lt_of_le positive (Nat.le_add_right _ _)

end Gas

namespace Engine

variable {host : Host} {block : Block} {message : Message}

/-- A session whose ledger has the world and the checkpoints given, and whose flag is settled. -/
structure Stands (w : World) (saved : List World) (flag : Bool) (s : Session) : Prop where
  ledger : s.ledger.Restored w saved
  watch : s.watch.Settled flag

/-- A call answers the same in all sessions that stand alike, and leaves them so. -/
theorem call_of_stands (host : Host) (block : Block) (message : Message) {w : World}
    {saved : List World} {flag : Bool} {s s' : Session} (h : Stands w saved flag s)
    (h' : Stands w saved flag s') :
    answer (call host block message) s' = answer (call host block message) s ∧
      Stands w saved flag (endState (call host block message) s') := by
  obtain ⟨⟨rfl, rfl, remembers⟩, settled⟩ := h
  obtain ⟨⟨world, saved, remembers'⟩, settled'⟩ := h'
  have initial (a : Address) (key : Word) :
      s'.ledger.initialValue a key = s.ledger.initialValue a key := by
    rw [remembers'.initialValue_eq, remembers.initialValue_eq, Ledger.oldest, Ledger.oldest, saved,
      world]
  cases covered : checkIntrinsic host message with
  | error e =>
      have refused (t : Session) : call host block message t = .error e t := by
        simp only [call, checked, covered]
      rw [endState_error (refused s')]
      refine ⟨?_, ⟨world, saved, remembers'⟩, settled'⟩
      simp only [answer, refused]
  | ok intrinsic =>
      have admitted (t : Session) : call host block message t =
          bracket (execute host block message intrinsic) Ledger.rollback Ledger.rollback t := by
        simp only [call, checked, covered]
      have ran := execute_alike host (Watch.bisimulation_settled flag) block message intrinsic s s'
        ⟨settled, settled'⟩ remembers remembers' world fun _ => initial
      have both := bracket_parallel ran (fun _ _ h => h.rolls_back) fun _ _ h => h.rolls_back
      rw [saved, ← admitted, ← admitted] at both
      refine ⟨both.answer_eq, ?_⟩
      exact both.endState (P := fun _ t => Stands s.ledger.world s.ledger.saved flag t)
        (fun _ _ _ twins => ⟨twins.ledger.2, twins.watch.2⟩) fun _ _ _ twins =>
          ⟨twins.ledger.2, twins.watch.2⟩

theorem toNat_middle {failing passing : UInt64} (order : failing ≤ passing) :
    (failing + (passing - failing) / 2).toNat =
      failing.toNat + (passing.toNat - failing.toNat) / 2 := by
  have le := UInt64.le_iff_toNat_le.mp order
  have bound := passing.toNat_lt
  rw [UInt64.toNat_add, UInt64.toNat_div, UInt64.toNat_sub_of_le _ _ order, Nat.mod_eq_of_lt]
  · rfl
  · show _ + _ / 2 < _
    omega

theorem toNat_middle_sub (failing passing : UInt64) :
    (failing + (passing - failing) / 2 - failing).toNat = (passing - failing).toNat / 2 := by
  rw [UInt64.add_comm, UInt64.add_sub_cancel, UInt64.toNat_div]
  rfl

theorem toNat_sub_middle (failing passing : UInt64) :
    (passing - (failing + (passing - failing) / 2)).toNat =
      (passing - failing).toNat - (passing - failing).toNat / 2 := by
  have half : ((passing - failing) / 2).toNat = (passing - failing).toNat / 2 :=
    UInt64.toNat_div _ _
  have le : (passing - failing) / 2 ≤ passing - failing :=
    UInt64.le_iff_toNat_le.mpr (half ▸ Nat.div_le_self _ _)
  have rest : passing - (failing + (passing - failing) / 2) =
      passing - failing - (passing - failing) / 2 := by
    grind
  rw [rest, UInt64.toNat_sub_of_le _ _ le, half]

/-- Once the gap is closed further rounds make no difference. -/
theorem narrow_add (fuel rounds : Nat) {failing passing : UInt64}
    (gap : (passing - failing).toNat ≤ 2 ^ fuel) :
    narrow host block message (fuel + rounds) failing passing =
      narrow host block message fuel failing passing := by
  induction fuel generalizing failing passing with
  | zero =>
      cases rounds with
      | zero => rfl
      | succ rounds =>
          have closed : passing - failing ≤ 1 := UInt64.le_iff_toNat_le.mpr gap
          rw [Nat.zero_add, narrow, narrow, if_pos closed]
  | succ fuel ih =>
      rw [pow_succ] at gap
      -- Either half is at most half of an even number, rounded up.
      have below : (failing + (passing - failing) / 2 - failing).toNat ≤ 2 ^ fuel := by
        rw [toNat_middle_sub]
        omega
      have above : (passing - (failing + (passing - failing) / 2)).toNat ≤ 2 ^ fuel := by
        rw [toNat_sub_middle]
        omega
      simp only [Nat.add_right_comm, narrow, ih below, ih above]

/-- What is learnt from each call with some gas limit, in a session in which a predicate holds that
calls keep. -/
structure Probes (host : Host) (block : Block) (message : Message) (stands : Session → Prop)
    (good bad : UInt64 → Prop) : Prop where
  keeps {limit : UInt64} {s s' : Session} {result : CallResult} (h : stands s)
    (called : call host block { message with gasLimit := limit } s = .ok result s') : stands s'
  success {limit : UInt64} {s s' : Session} {result : CallResult} (h : stands s)
    (called : call host block { message with gasLimit := limit } s = .ok result s')
    (succeeded : result.success = true) : good limit
  failure {limit : UInt64} {s s' : Session} {result : CallResult} (h : stands s)
    (called : call host block { message with gasLimit := limit } s = .ok result s')
    (failed : result.success = false) : bad limit

variable {stands : Session → Prop} {good bad : UInt64 → Prop}

theorem sub_one_of_next {failing passing : UInt64} (order : failing < passing)
    (next : passing.toNat - failing.toNat ≤ 1) : passing - 1 = failing := by
  have lt := UInt64.lt_iff_toNat_lt.mp order
  have one : (1 : UInt64).toNat = 1 := rfl
  rw [← UInt64.toNat_inj, UInt64.toNat_sub_of_le _ _ (UInt64.le_iff_toNat_le.mpr (by omega))]
  omega

/-- What is known of the two ends stays known while the gap closes, and so it holds of the limit
found and of the one below it. -/
theorem narrow_finds (probes : Probes host block message stands good bad)
    {fuel : Nat} {failing passing limit : UInt64} {s s' : Session}
    (gap : passing.toNat - failing.toNat ≤ 2 ^ fuel) (order : failing < passing) (h : stands s)
    (low : bad failing) (high : good passing)
    (found : narrow host block message fuel failing passing s = .ok limit s') :
    failing < limit ∧ limit ≤ passing ∧ good limit ∧ bad (limit - 1) := by
  induction fuel generalizing failing passing s with
  | zero =>
      obtain ⟨rfl, -⟩ := pure_eq_ok.mp found
      exact ⟨order, UInt64.le_refl _, high, (sub_one_of_next order gap).symm ▸ low⟩
  | succ fuel ih =>
      have le := UInt64.lt_iff_toNat_lt.mp order
      have width := UInt64.toNat_sub_of_le _ _ (UInt64.le_of_lt order)
      have middle := toNat_middle (UInt64.le_of_lt order)
      rw [pow_succ] at gap
      rw [narrow] at found
      split at found
      · next small =>
          obtain ⟨rfl, -⟩ := pure_eq_ok.mp found
          have next := sub_one_of_next order (width ▸ UInt64.le_iff_toNat_le.mp small)
          exact ⟨order, UInt64.le_refl _, high, next.symm ▸ low⟩
      · next wide =>
          have wide : 1 < passing.toNat - failing.toNat := by
            rw [← width]
            exact UInt64.lt_iff_toNat_lt.mp (UInt64.not_le.mp wide)
          obtain ⟨result, t, called, found⟩ := bind_eq_ok.mp found
          have stands' := probes.keeps h called
          split at found
          · next success =>
              obtain ⟨lower, upper, ends⟩ := ih (by omega) (UInt64.lt_iff_toNat_lt.mpr (by omega))
                stands' low (probes.success h called success) found
              refine ⟨lower, ?_, ends⟩
              rw [UInt64.le_iff_toNat_le] at upper ⊢
              omega
          · next failure =>
              have known := probes.failure h called (Bool.not_eq_true _ ▸ failure)
              obtain ⟨lower, upper, ends⟩ := ih (by omega) (UInt64.lt_iff_toNat_lt.mpr (by omega))
                stands' known high found
              refine ⟨?_, upper, ends⟩
              rw [UInt64.lt_iff_toNat_lt] at lower ⊢
              omega

theorem toNat_below (least : UInt64) :
    (if least = 0 then 0 else least - 1).toNat = least.toNat - 1 := by
  split
  · next zero =>
      rw [zero]
      rfl
  · next positive =>
      have one : (1 : UInt64) ≤ least :=
        UInt64.le_iff_toNat_le.mpr (UInt64.lt_iff_toNat_lt.mp (UInt64.pos_iff_ne_zero.mpr positive))
      exact UInt64.toNat_sub_of_le _ _ one

/-- A search that starts right below the least limit to be considered ends at that or above it. -/
theorem narrow_finds_from (probes : Probes host block message stands good bad)
    {least passing limit : UInt64} {s s' : Session} (order : least ≤ passing) (h : stands s)
    (low : bad (if least = 0 then 0 else least - 1)) (high : good passing)
    (found : narrow host block message 64 (if least = 0 then 0 else least - 1) passing s =
      .ok limit s') :
    least ≤ limit ∧ limit ≤ passing ∧ good limit ∧ (limit = least ∨ bad (limit - 1)) := by
  have le := UInt64.le_iff_toNat_le.mp order
  have below := toNat_below least
  have bound := passing.toNat_lt
  by_cases empty : passing = 0
  · obtain rfl : least = 0 := UInt64.le_zero_iff.mp (empty ▸ order)
    subst empty
    obtain ⟨rfl, -⟩ := pure_eq_ok.mp found
    exact ⟨order, order, high, .inl rfl⟩
  · have positive := UInt64.lt_iff_toNat_lt.mp (UInt64.pos_iff_ne_zero.mpr empty)
    have start : (if least = 0 then 0 else least - 1) < passing := by
      rw [UInt64.lt_iff_toNat_lt, below]
      have zero : (0 : UInt64).toNat = 0 := rfl
      omega
    obtain ⟨lower, upper, ends, next⟩ := narrow_finds probes (by omega) start h low high found
    refine ⟨?_, upper, ends, .inr next⟩
    rw [UInt64.lt_iff_toNat_lt, below] at lower
    rw [UInt64.le_iff_toNat_le]
    omega

theorem covered_of_call {s s' : Session} {result : CallResult}
    (h : call host block message s = .ok result s') :
    checkIntrinsic host message = .ok (intrinsicGas host message) := by
  cases covered : checkIntrinsic host message with
  | ok intrinsic => rw [(checkIntrinsic_ok covered).2]
  | error e =>
      simp only [call, checked, covered] at h
      cases h

/-- Whether a message succeeds with the gas limit given, when it is only asked about. -/
def SucceedsWith (host : Host) (block : Block) (message : Message) (s : Session)
    (limit : UInt64) : Prop :=
  ∃ result, answer (call host block { message with gasLimit := limit }) s = .ok result ∧
    result.success = true

/-- A limit below the intrinsic cost is refused. -/
theorem intrinsicGas_le_of_succeeds {s : Session} {limit : UInt64}
    (h : SucceedsWith host block message s limit) : intrinsicGas host message ≤ limit := by
  obtain ⟨result, answered, -⟩ := h
  obtain ⟨t, called⟩ := answer_eq_ok.mp answered
  exact (checkIntrinsic_ok (covered_of_call called)).1

/-- A call in a session that stands alike tells of the session itself. -/
theorem probes_of_stands (host : Host) (block : Block) (message : Message) {w : World}
    {saved : List World} {flag : Bool} {s : Session} (h : Stands w saved flag s) :
    Probes host block message (Stands w saved flag) (SucceedsWith host block message s)
      (fun limit => ¬ SucceedsWith host block message s limit) := by
  have tells {limit : UInt64} {t t' : Session} {result : CallResult} (stands : Stands w saved flag t)
      (called : call host block { message with gasLimit := limit } t = .ok result t') :
      Stands w saved flag t' ∧
        answer (call host block { message with gasLimit := limit }) s = .ok result := by
    obtain ⟨same, stands'⟩ :=
      call_of_stands host block { message with gasLimit := limit } h stands
    rw [endState_ok called] at stands'
    exact ⟨stands', same.symm.trans (answer_eq_ok.mpr ⟨t', called⟩)⟩
  refine ⟨fun stands called => (tells stands called).1,
    fun stands called success => ⟨_, (tells stands called).2, success⟩, ?_⟩
  rintro limit t t' result stands called failure ⟨result', answered, success⟩
  cases (tells stands called).2.symm.trans answered
  exact Bool.false_ne_true (failure.symm.trans success)

/-- What the search starts from: the highest limit that is known to fail. -/
theorem estimateGas_eq {intrinsic : UInt64} (covered : checkIntrinsic host message = .ok intrinsic) :
    estimateGas host block message = do
      let result ← call host block message
      if !result.success then return none
      let failing := if intrinsic = 0 then 0 else intrinsic - 1
      return some (← narrow host block message 64 failing message.gasLimit) := by
  simp only [estimateGas, covered, pure_bind]

theorem covered_of_estimateGas {s s' : Session} {found : Option UInt64}
    (h : estimateGas host block message s = .ok found s') :
    checkIntrinsic host message = .ok (intrinsicGas host message) := by
  cases covered : checkIntrinsic host message with
  | ok intrinsic => rw [(checkIntrinsic_ok covered).2]
  | error e =>
      simp only [estimateGas, covered] at h
      cases h

/-- The message is tried with its own limit first. If that fails nothing is found, and else a limit
is searched for below it. -/
theorem estimateGas_ok {s s' : Session} {found : Option UInt64}
    (h : estimateGas host block message s = .ok found s') :
    ∃ result t, call host block message s = .ok result t ∧
      (result.success = false ∧ found = none ∧ s' = t ∨
        result.success = true ∧ ∃ limit, found = some limit ∧
          narrow host block message 64
            (if intrinsicGas host message = 0 then 0 else intrinsicGas host message - 1)
            message.gasLimit t = .ok limit s') := by
  rw [estimateGas_eq (covered_of_estimateGas h)] at h
  obtain ⟨result, t, called, h⟩ := bind_eq_ok.mp h
  refine ⟨result, t, called, ?_⟩
  cases success : result.success with
  | false =>
      simp only [success, Bool.not_false, if_true] at h
      obtain ⟨rfl, rfl⟩ := pure_eq_ok.mp h
      exact .inl ⟨rfl, rfl, rfl⟩
  | true =>
      simp only [success, Bool.not_true, Bool.false_eq_true, if_false] at h
      obtain ⟨limit, t', narrowed, h⟩ := bind_eq_ok.mp h
      obtain ⟨rfl, rfl⟩ := pure_eq_ok.mp h
      exact .inr ⟨rfl, limit, rfl, narrowed⟩

/-- Nothing is found just where the message fails with its own limit. -/
theorem estimateGas_none {s s' : Session} :
    estimateGas host block message s = .ok none s' ↔
      ∃ result, call host block message s = .ok result s' ∧ result.success = false := by
  constructor
  · intro h
    obtain ⟨result, t, called, ⟨failure, -, rfl⟩ | ⟨-, limit, found, -⟩⟩ := estimateGas_ok h
    · exact ⟨result, called, failure⟩
    · cases found
  · rintro ⟨result, called, failure⟩
    rw [estimateGas_eq (covered_of_call called), bind_of_ok called]
    simp only [failure, Bool.not_false, if_true]
    rfl

/-- A limit is found only where the message succeeds with its own, and by the search below that. -/
theorem estimateGas_some {s s' : Session} {limit : UInt64}
    (h : estimateGas host block message s = .ok (some limit) s') :
    ∃ result t, call host block message s = .ok result t ∧ result.success = true ∧
      narrow host block message 64
        (if intrinsicGas host message = 0 then 0 else intrinsicGas host message - 1)
        message.gasLimit t = .ok limit s' := by
  obtain ⟨result, t, called, ⟨-, found, -⟩ | ⟨success, limit', found, narrowed⟩⟩ := estimateGas_ok h
  · cases found
  · cases found
    exact ⟨result, t, called, success, narrowed⟩

theorem estimateGas_some_bounds {s s' : Session} {limit : UInt64}
    (h : estimateGas host block message s = .ok (some limit) s') :
    intrinsicGas host message ≤ limit ∧ limit ≤ message.gasLimit := by
  obtain ⟨result, t, called, -, narrowed⟩ := estimateGas_some h
  have covered := (checkIntrinsic_ok (covered_of_call called)).1
  have anyway : Probes host block message (fun _ => True) (fun _ => True) (fun _ => True) :=
    ⟨fun _ _ => trivial, fun _ _ _ => trivial, fun _ _ _ => trivial⟩
  obtain ⟨lower, upper, -⟩ := narrow_finds_from anyway covered trivial trivial trivial narrowed
  exact ⟨lower, upper⟩

/-- Where the flag is settled, what the search finds is a limit with which the message succeeds and
below which it would not be admitted or does not. -/
theorem estimateGas_some_tight {w : World} {saved : List World} {flag : Bool} {s s' : Session}
    {limit : UInt64} (stands : Stands w saved flag s)
    (h : estimateGas host block message s = .ok (some limit) s') :
    SucceedsWith host block message s limit ∧
      (0 < intrinsicGas host message →
        limit = intrinsicGas host message ∨ ¬ SucceedsWith host block message s (limit - 1)) := by
  obtain ⟨result, t, called, success, narrowed⟩ := estimateGas_some h
  have covered := (checkIntrinsic_ok (covered_of_call called)).1
  have probes := probes_of_stands host block message stands
  -- Without an intrinsic cost nothing is known of the limit from which the search starts.
  have tells : Probes host block message (Stands w saved flag) (SucceedsWith host block message s)
      fun limit => 0 < intrinsicGas host message → ¬ SucceedsWith host block message s limit :=
    ⟨probes.keeps, probes.success, fun h called failed _ => probes.failure h called failed⟩
  have start (positive : 0 < intrinsicGas host message) : ¬ SucceedsWith host block message s
      (if intrinsicGas host message = 0 then 0 else intrinsicGas host message - 1) := by
    intro succeeds
    have admitted := UInt64.le_iff_toNat_le.mp (intrinsicGas_le_of_succeeds succeeds)
    have positive := UInt64.lt_iff_toNat_lt.mp positive
    rw [toNat_below] at admitted
    exact absurd positive (by omega)
  obtain ⟨-, -, good, low⟩ := narrow_finds_from tells covered (probes.keeps stands called) start
    (probes.success stands called success) narrowed
  exact ⟨good, fun positive => low.imp_right (· positive)⟩

theorem least_of_tight {succeeds : UInt64 → Prop} {least limit : UInt64}
    (monotone : ∀ a b, a ≤ b → succeeds a → succeeds b)
    (above : ∀ enough, succeeds enough → least ≤ enough)
    (tight : limit = least ∨ ¬ succeeds (limit - 1)) {enough : UInt64} (h : succeeds enough) :
    limit ≤ enough := by
  obtain rfl | fails := tight
  · exact above enough h
  · by_contra below
    have lt := UInt64.lt_iff_toNat_lt.mp (UInt64.not_le.mp below)
    have one : (1 : UInt64).toNat = 1 := rfl
    refine fails (monotone enough _ ?_ h)
    rw [UInt64.le_iff_toNat_le,
      UInt64.toNat_sub_of_le _ _ (UInt64.le_iff_toNat_le.mpr (by omega))]
    omega

/-- The search ends, and leaves the accounts, slots and checkpoints of any store as they were. It
finds nothing just where the message fails with its own limit. What it finds lies between the
intrinsic cost and that limit, and as long as nothing sets the flag while it goes on, it is a limit
with which the message succeeds, and with one less it does not or would not be admitted. -/
theorem estimateGas_tight (fork : Fork) (hashes : UInt64 → Option Hash) (block : Block)
    (message : Message) (w : World) (ops : List StoreOp) (watch : Watch) :
    let host := Host.ofRules (.ofFork fork) hashes
    let s : Session := ⟨((Ledger.ofWorld w).performAll ops).2, watch⟩
    let found := answer (estimateGas host block message) s
    let after := endState (estimateGas host block message) s
    let intrinsic := intrinsicGas host message
    let succeeds := SucceedsWith host block message s
    (∀ rounds failing passing, narrow host block message (64 + rounds) failing passing =
        narrow host block message 64 failing passing) ∧
      (after.ledger.world = s.ledger.world ∧ after.ledger.saved = s.ledger.saved) ∧
      (found = .ok none ↔
        ∃ result, answer (call host block message) s = .ok result ∧ result.success = false) ∧
      ∀ limit, found = .ok (some limit) →
        intrinsic ≤ limit ∧ limit ≤ message.gasLimit ∧
        (watch.interrupted = true ∨ watch.interruptAfter = none →
          succeeds limit ∧
          -- More data than any memory holds could make the sum of its prices wrap round to nothing.
          (message.data.size < 2 ^ 57 →
            (limit = intrinsic ∨ ¬ succeeds (limit - 1)) ∧
            ((∀ a b, a ≤ b → succeeds a → succeeds b) →
              ∀ enough, succeeds enough → limit ≤ enough))) := by
  intro host s found after intrinsic succeeds
  refine ⟨fun rounds failing passing => ?_, undoes_estimateGas host block message s, ?_, ?_⟩
  · exact narrow_add 64 rounds (Nat.le_of_lt (passing - failing).toNat_lt)
  · simp only [found, answer_eq_ok, estimateGas_none]
    constructor
    · rintro ⟨t, result, called, failure⟩
      exact ⟨result, ⟨t, called⟩, failure⟩
    · rintro ⟨result, ⟨t, called⟩, failure⟩
      exact ⟨t, result, called, failure⟩
  · intro limit h
    obtain ⟨s', h⟩ := answer_eq_ok.mp h
    obtain ⟨lower, upper⟩ := estimateGas_some_bounds h
    refine ⟨lower, upper, fun quiet => ?_⟩
    have stands : Stands s.ledger.world s.ledger.saved watch.interrupted s :=
      ⟨⟨rfl, rfl, (Ledger.remembers_ofWorld w).performAll ops⟩, rfl, quiet⟩
    obtain ⟨good, tight⟩ := estimateGas_some_tight stands h
    refine ⟨good, fun fits => ?_⟩
    have tight := tight (Gas.intrinsic_ofFork_pos fork message.isCreate fits)
    exact ⟨tight, fun monotone enough =>
      least_of_tight monotone (fun _ => intrinsicGas_le_of_succeeds) tight⟩

/-- One instruction, for a single unit of gas: the intrinsic cost is one too little. -/
theorem estimateGas_tight_jumpdest :
    let host := Host.ofRules (.ofFork .istanbul) fun _ => none
    let message : Message := ⟨1, some 32, 0, ByteArray.empty, 21005, 0⟩
    let ops : List StoreOp := [.createAccount 32, .saveCode 32 ⟨#[0x5b]⟩]
    let s : Session := ⟨((Ledger.ofWorld .empty).performAll ops).2, Watch.start false none⟩
    answer (estimateGas host .genesis message) s = .ok (some 21001) ∧
      SucceedsWith host .genesis message s 21001 ∧
      ¬ SucceedsWith host .genesis message s 21000 := by
  intro host message ops s
  have found : answer (estimateGas host .genesis message) s = .ok (some 21001) := by decide +kernel
  obtain ⟨-, -, -, finds⟩ := estimateGas_tight .istanbul (fun _ => none) .genesis message .empty ops
    (Watch.start false none)
  obtain ⟨succeeds, below⟩ := (finds 21001 found).2.2 (.inr rfl)
  obtain ⟨intrinsic | fails, -⟩ := below (by decide)
  · exact absurd intrinsic (by decide +kernel)
  · exact ⟨found, succeeds, fails⟩

end Engine
end EvmEngine
