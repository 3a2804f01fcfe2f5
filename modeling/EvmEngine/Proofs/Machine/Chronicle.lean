import EvmEngine.Proofs.Instruction.Deeds
import EvmEngine.Proofs.Machine.Checkpoints

/-!
A chronicle of a run, kept beside the machine and never read by it. It numbers the frames as they are
entered, writes down each deed with the frame that did it and all the frames that one runs in, and
notes which frames finish with success. What a run reports in the end is what lasts in the chronicle:
the deeds all of whose frames succeeded, in the order in which they were done.
-/

namespace EvmEngine

open Effects Deed

/-- A deed, with the frame that did it and the frames that one runs in, the innermost first. -/
structure Chronicle.Entry where
  deed : Deed
  frames : List Nat

structure Chronicle where
  /-- How many frames have been entered, which is the number of the next one. -/
  entered : Nat
  /-- The frames that are open, the innermost first. -/
  openFrames : List Nat
  entries : List Chronicle.Entry
  /-- The frames that finished with success. -/
  succeeded : List Nat

namespace Chronicle

/-- Nothing has been entered. -/
def empty : Chronicle := ⟨0, [], [], []⟩

/-- The innermost frame does something, or nothing. -/
def did (c : Chronicle) (deed : Option Deed) : Chronicle :=
  { c with entries := c.entries ++ deed.toList.map (⟨·, c.openFrames⟩) }

/-- Another frame is entered. -/
def enter (c : Chronicle) : Chronicle :=
  { c with entered := c.entered + 1, openFrames := c.entered :: c.openFrames }

/-- The innermost frame is finished. -/
def finish (c : Chronicle) (success : Bool) : Chronicle :=
  match c.openFrames with
  | [] => c
  | i :: rest =>
      { c with
        openFrames := rest
        succeeded := if success then i :: c.succeeded else c.succeeded }

/-- The deeds all of whose frames are among those given. -/
def lasting (frames : List Nat) (entries : List Entry) : List Deed :=
  (entries.filter fun entry => entry.frames.all (frames.contains ·)).map Entry.deed

/-- The deeds of the frames that finished with success, as did every frame around them. -/
def survivors (c : Chronicle) : List Deed :=
  lasting c.succeeded c.entries

/-- The logs that survive, in the order in which they were written. -/
def logs (c : Chronicle) : List Log :=
  c.survivors.filterMap log?

/-- The accounts of the self-destructs that survive, in the order in which those were executed. -/
def destroyed (c : Chronicle) : List Address :=
  c.survivors.filterMap destroyed?

end Chronicle

namespace Machine

/-- What one iteration adds to the chronicle. -/
def observe (host : Host) (m : Machine) (c : Chronicle) : Chronicle :=
  match m.frames with
  | [] => c
  | f :: _ =>
      if f.isRunning then
        let c := c.did (Focus.deed? ⟨f, m.ledger⟩ host (f.fetch host m.watch.interrupted))
        match m.advance host with
        | .more m' => if m.frames.length < m'.frames.length then c.enter else c
        | .finished _ _ | .failed _ _ => c
      else
        match f.complete host m.ledger with
        | .ok result _ => c.finish result.success
        | .error _ _ => c

/-- The chronicle of at most so many iterations. -/
def record (host : Host) : Nat → Machine → Chronicle → Chronicle
  | 0, _, c => c
  | n + 1, m, c =>
      match m.advance host with
      | .more m' => record host n m' (m.observe host c)
      | .finished _ _ | .failed _ _ => m.observe host c

/-- The chronicle of a whole run of a frame. -/
def chronicle (host : Host) (root : Frame) (ledger : Ledger) (watch : Watch) : Chronicle :=
  record host (iterationBound root.gas) ⟨ledger, [root], watch⟩ Chronicle.empty.enter

end Machine

namespace Chronicle

variable {frames frames' : List Nat} {entries more : List Entry} {i : Nat}

theorem lasting_append (frames : List Nat) (entries more : List Entry) :
    lasting frames (entries ++ more) = lasting frames entries ++ lasting frames more := by
  simp [lasting]

/-- Only the frames that occur in the entries matter. -/
theorem lasting_congr
    (same : ∀ entry ∈ entries, ∀ i ∈ entry.frames, i ∈ frames ↔ i ∈ frames') :
    lasting frames entries = lasting frames' entries := by
  have filters : entries.filter (fun entry => entry.frames.all (frames.contains ·)) =
      entries.filter (fun entry => entry.frames.all (frames'.contains ·)) := by
    refine List.filter_congr fun entry member => ?_
    rw [Bool.eq_iff_iff]
    simp only [List.all_eq_true, List.contains_iff_mem]
    exact forall₂_congr fun i inside => same entry member i inside
  rw [lasting, lasting, filters]

/-- Nothing lasts of a frame that is not among those given. -/
theorem lasting_eq_nil (inside : ∀ entry ∈ entries, i ∈ entry.frames) (outside : i ∉ frames) :
    lasting frames entries = [] := by
  rw [lasting, List.map_eq_nil_iff, List.filter_eq_nil_iff]
  intro entry member all
  have known := List.all_eq_true.mp all i (inside entry member)
  exact outside (List.contains_iff_mem.mp known)

/-- What was done in a frame or in one entered from it was done below the frame around it. -/
theorem below_append {rest : List Nat} {k : Nat}
    (within : ∀ entry ∈ entries, ∃ inner, entry.frames = inner ++ k :: rest)
    (inside : ∀ entry ∈ more, ∃ inner, entry.frames = inner ++ i :: k :: rest) :
    ∀ entry ∈ entries ++ more, ∃ inner, entry.frames = inner ++ k :: rest := by
  intro entry member
  obtain member | member := List.mem_append.mp member
  · exact within entry member
  · obtain ⟨inner, frames⟩ := inside entry member
    exact ⟨inner ++ [i], by rw [frames, List.append_assoc, List.singleton_append]⟩

/-- The record of each open frame is that of the deeds that last if it and the frames around it do.
The deeds of a frame and of those entered from it come after all others that were done before. -/
def Tells (succeeded : List Nat) : List Frame → List Nat → List Entry → Prop
  | [], [], entries => entries = []
  | f :: below, i :: rest, entries =>
      ∃ older own, entries = older ++ own ∧ (∀ entry ∈ older, i ∉ entry.frames) ∧
        (∀ entry ∈ own, ∃ inner, entry.frames = inner ++ i :: rest) ∧
        f.Tells (lasting (succeeded ++ i :: rest) own) ∧ Tells succeeded below rest older
  | _, _, _ => False

namespace Tells

variable {succeeded rest : List Nat} {f f' parent : Frame} {below : List Frame} {k : Nat}

theorem did {deed : Option Deed} (h : Tells succeeded (f :: below) (i :: rest) entries)
    (tells : ∀ deeds, f.Tells deeds → f'.Tells (deeds ++ deed.toList)) :
    Tells succeeded (f' :: below) (i :: rest)
      (entries ++ deed.toList.map (⟨·, i :: rest⟩)) := by
  obtain ⟨older, own, rfl, before, inside, told, others⟩ := h
  refine ⟨older, own ++ deed.toList.map (⟨·, i :: rest⟩), List.append_assoc .., before, ?_, ?_,
    others⟩
  · intro entry member
    obtain member | new := List.mem_append.mp member
    · exact inside entry member
    · obtain ⟨_, -, rfl⟩ := List.mem_map.mp new
      exact ⟨[], rfl⟩
  · have fresh : lasting (succeeded ++ i :: rest) (deed.toList.map (⟨·, i :: rest⟩)) =
        deed.toList := by
      cases deed with
      | none => rfl
      | some deed =>
          have all : (i :: rest).all ((succeeded ++ i :: rest).contains ·) = true :=
            List.all_eq_true.mpr fun j among =>
              List.contains_iff_mem.mpr (List.mem_append_right _ among)
          simp only [Option.toList_some, List.map_cons, List.map_nil, lasting, List.filter_cons,
            all, if_true, List.filter_nil]
    rw [lasting_append, fresh]
    exact tells _ told

theorem enter (h : Tells succeeded below rest entries)
    (fresh : ∀ entry ∈ entries, i ∉ entry.frames) (tells : f.Tells []) :
    Tells succeeded (f :: below) (i :: rest) entries :=
  ⟨entries, [], (List.append_nil _).symm, fresh, by simp, tells, h⟩

/-- A frame that none of the deeds was done in makes no difference. -/
theorem grow {frames : List Frame} {ids : List Nat} (h : Tells succeeded frames ids entries)
    (outside : ∀ entry ∈ entries, i ∉ entry.frames) : Tells (i :: succeeded) frames ids entries := by
  induction frames generalizing ids entries with
  | nil =>
      cases ids with
      | nil => exact h
      | cons => exact h.elim
  | cons f below ih =>
      cases ids with
      | nil => exact h.elim
      | cons k rest =>
          obtain ⟨older, own, rfl, before, inside, told, others⟩ := h
          refine ⟨older, own, rfl, before, inside, ?_, ih others fun entry member =>
            outside entry (List.mem_append_left _ member)⟩
          have same : lasting (i :: succeeded ++ k :: rest) own =
              lasting (succeeded ++ k :: rest) own := by
            refine lasting_congr fun entry member j among => ?_
            have other : j ≠ i := fun same =>
              outside entry (List.mem_append_right _ member) (same ▸ among)
            simp [other]
          rwa [same]

/-- The frame below takes the record of a frame that succeeds over. -/
theorem succeed (h : Tells succeeded (f :: parent :: below) (i :: k :: rest) entries)
    (tells : ∀ deeds more, parent.Tells deeds → f.Tells more → f'.Tells (deeds ++ more)) :
    Tells (i :: succeeded) (f' :: below) (k :: rest) entries := by
  obtain ⟨older, own, rfl, before, inside, told, others⟩ := h
  obtain ⟨oldest, mine, rfl, first, within, tale, others⟩ := others
  have apart : ∀ entry ∈ mine, ∀ j ∈ entry.frames, j ∈ (i :: succeeded) ++ k :: rest ↔
      j ∈ succeeded ++ k :: rest := by
    intro entry member j among
    have other : j ≠ i := fun same =>
      before entry (List.mem_append_right _ member) (same ▸ among)
    simp [other]
  refine ⟨oldest, mine ++ own, List.append_assoc .., first, ?_, ?_, others.grow fun entry member =>
    before entry (List.mem_append_left _ member)⟩
  · exact below_append within inside
  · rw [lasting_append, lasting_congr apart]
    refine tells _ _ tale ?_
    have same : lasting (i :: succeeded ++ k :: rest) own =
        lasting (succeeded ++ i :: k :: rest) own := by
      refine lasting_congr fun entry _ j _ => ?_
      simp only [List.cons_append, List.mem_cons, List.mem_append]
      tauto
    rwa [same]

/-- Nothing lasts of a frame that fails. -/
theorem fail (h : Tells succeeded (f :: parent :: below) (i :: k :: rest) entries)
    (failed : i ∉ succeeded) (other : i ∉ k :: rest)
    (tells : ∀ deeds, parent.Tells deeds → f'.Tells deeds) :
    Tells succeeded (f' :: below) (k :: rest) entries := by
  obtain ⟨older, own, rfl, before, inside, told, others⟩ := h
  obtain ⟨oldest, mine, rfl, first, within, tale, others⟩ := others
  refine ⟨oldest, mine ++ own, List.append_assoc .., first, ?_, ?_, others⟩
  · exact below_append within inside
  · have nothing : lasting (succeeded ++ k :: rest) own = [] := by
      refine lasting_eq_nil (i := i) (fun entry member => ?_) ?_
      · obtain ⟨inner, frames⟩ := inside entry member
        simp [frames]
      · exact fun among => (List.mem_append.mp among).elim failed other
    rw [lasting_append, nothing, List.append_nil]
    exact tells _ tale

end Tells
end Chronicle

namespace Frame

variable {f f' : Frame} {host : Host} {l l' : Ledger} {result : CallResult} {deeds more : List Deed}
  {target : ReturnTarget}

/-- A frame that finishes with success hands over its record. -/
theorem told_complete (h : f.complete host l = .ok result l') (tells : f.Tells deeds)
    (success : result.success = true) : Told deeds result.logs result.destroyed := by
  obtain ⟨logs, destroyed, -⟩ := complete_success h success
  rw [logs, destroyed]
  exact tells

theorem tells_absorb {u : Unit} (h : absorb result target f = .ok u f') (tells : f.Tells deeds)
    (child : result.success = true → Told more result.logs result.destroyed) :
    f'.Tells (if result.success then deeds ++ more else deeds) :=
  absorb_eq_ok h ▸ tells.resumed child

end Frame

namespace Machine

open Chronicle

variable {host : Host} {m m' : Machine} {c : Chronicle}

/-- A chronicle kept beside a machine: it tells the record of each open frame, and the numbers it
gives are used once. -/
structure Recorded (m : Machine) (c : Chronicle) : Prop where
  tells : Chronicle.Tells c.succeeded m.frames c.openFrames c.entries
  counted : ∀ i, i ∈ c.openFrames ∨ i ∈ c.succeeded ∨ (∃ entry ∈ c.entries, i ∈ entry.frames) →
    i < c.entered
  distinct : c.openFrames.Nodup
  apart : ∀ i ∈ c.openFrames, i ∉ c.succeeded

namespace Recorded

variable {f f' : Frame} {below : List Frame} {l l' : Ledger} {watch watch' : Watch}

theorem openFrames_eq (h : Recorded ⟨l, f :: below, watch⟩ c) :
    ∃ i rest, c.openFrames = i :: rest := by
  have tells := h.tells
  cases numbers : c.openFrames with
  | nil =>
      rw [numbers] at tells
      exact tells.elim
  | cons i rest => exact ⟨i, rest, rfl⟩

theorem did {deed : Option Deed} (h : Recorded ⟨l, f :: below, watch⟩ c)
    (tells : ∀ deeds, f.Tells deeds → f'.Tells (deeds ++ deed.toList)) :
    Recorded ⟨l', f' :: below, watch'⟩ (c.did deed) := by
  obtain ⟨i, rest, numbers⟩ := h.openFrames_eq
  refine ⟨?_, fun j known => h.counted j ?_, h.distinct, h.apart⟩
  · have told := h.tells
    simp only [Chronicle.did, numbers] at told ⊢
    exact told.did tells
  · obtain known | known | ⟨entry, member, among⟩ := known
    · exact .inl known
    · exact .inr (.inl known)
    · obtain member | new := List.mem_append.mp member
      · exact .inr (.inr ⟨entry, member, among⟩)
      · obtain ⟨_, -, rfl⟩ := List.mem_map.mp new
        exact .inl among

theorem enter {child : Frame} (h : Recorded ⟨l, f :: below, watch⟩ c) (tells : child.Tells []) :
    Recorded ⟨l', child :: f :: below, watch'⟩ c.enter := by
  have fresh {p : Prop} (known : p → c.entered < c.entered) : ¬ p :=
    fun holds => Nat.lt_irrefl _ (known holds)
  refine ⟨h.tells.enter (fun entry member => fresh fun among => ?_) tells, fun i known => ?_,
    List.nodup_cons.mpr ⟨fresh fun among => h.counted _ (.inl among), h.distinct⟩, ?_⟩
  · exact h.counted _ (.inr (.inr ⟨entry, member, among⟩))
  · show i < c.entered + 1
    obtain known | known := known
    · obtain rfl | known := List.mem_cons.mp known
      · exact Nat.lt_succ_self _
      · exact Nat.lt_succ_of_lt (h.counted i (.inl known))
    · exact Nat.lt_succ_of_lt (h.counted i (.inr known))
  · intro i member
    obtain rfl | member := List.mem_cons.mp member
    · exact fresh fun among => h.counted _ (.inr (.inl among))
    · exact h.apart i member

theorem finish {parent parent' : Frame} {success : Bool}
    (h : Recorded ⟨l, f :: parent :: below, watch⟩ c)
    (tells : ∀ deeds more, parent.Tells deeds → f.Tells more →
      parent'.Tells (if success then deeds ++ more else deeds)) :
    Recorded ⟨l', parent' :: below, watch'⟩ (c.finish success) := by
  obtain ⟨i, rest, numbers⟩ := h.openFrames_eq
  have told := h.tells
  have distinct := h.distinct
  have apart := h.apart
  have counted := h.counted
  rw [numbers] at told distinct apart counted
  obtain ⟨other, distinct⟩ := List.nodup_cons.mp distinct
  have failed := apart i List.mem_cons_self
  obtain ⟨k, others, rfl⟩ : ∃ k others, rest = k :: others := by
    cases rest with
    | nil =>
        obtain ⟨_, _, _, _, _, _, nothing⟩ := told
        exact nothing.elim
    | cons k others => exact ⟨k, others, rfl⟩
  simp only [Chronicle.finish, numbers]
  cases success with
  | true =>
      refine ⟨told.succeed tells, fun j known => counted j ?_, distinct, fun j member among => ?_⟩
      · obtain known | known | known := known
        · exact .inl (List.mem_cons_of_mem _ known)
        · obtain rfl | known := List.mem_cons.mp known
          · exact .inl List.mem_cons_self
          · exact .inr (.inl known)
        · exact .inr (.inr known)
      · obtain rfl | among := List.mem_cons.mp among
        · exact other member
        · exact apart j (List.mem_cons_of_mem _ member) among
  | false =>
      refine ⟨told.fail failed other fun deeds tale => ?_, fun j known => counted j ?_, distinct,
        fun j member => apart j (List.mem_cons_of_mem _ member)⟩
      · obtain ⟨_, _, _, _, _, mine, _⟩ := told
        exact tells deeds _ tale mine
      · obtain known | known := known
        · exact .inl (List.mem_cons_of_mem _ known)
        · exact .inr known

/-- What the outermost frame hands over, when it finishes with success, is what survives. -/
theorem last {result : CallResult} (h : Recorded ⟨l, [f], watch⟩ c)
    (completed : f.complete host l = .ok result l') (success : result.success = true) :
    Told (c.finish true).survivors result.logs result.destroyed := by
  obtain ⟨i, rest, numbers⟩ := h.openFrames_eq
  have told := h.tells
  rw [numbers] at told
  obtain ⟨older, own, entries, -, -, told, others⟩ := told
  obtain ⟨rfl, rfl⟩ : rest = [] ∧ older = [] := by
    cases rest with
    | nil => exact ⟨rfl, others⟩
    | cons => exact others.elim
  have same : (c.finish true).survivors = lasting (c.succeeded ++ [i]) own := by
    simp only [Chronicle.finish, numbers, survivors, entries, List.nil_append, if_true]
    refine lasting_congr fun entry _ j _ => ?_
    simp only [List.mem_cons, List.mem_append, List.not_mem_nil, or_false]
    exact or_comm
  rw [same]
  exact Frame.told_complete completed told success

end Recorded

theorem recorded_root {root : Frame} {l : Ledger} {watch : Watch} (tells : root.Tells []) :
    Recorded ⟨l, [root], watch⟩ Chronicle.empty.enter where
  tells := ⟨[], [], rfl, by simp, by simp, tells, rfl⟩
  counted i known := by
    obtain known | known | ⟨_, none, -⟩ := known
    · obtain rfl := List.mem_singleton.mp known
      exact Nat.zero_lt_one
    · cases known
    · cases none
  distinct := List.nodup_singleton _
  apart _ _ := List.not_mem_nil

/-- An iteration keeps the chronicle in step with the machine. -/
theorem Recorded.step (h : Recorded m c) (advanced : m.advance host = .more m') :
    Recorded m' (m.observe host c) := by
  cases step_of_more advanced with
  | ran running stepped quiet =>
      simp only [observe, running, if_true, advanced, List.length_cons, lt_irrefl, if_false]
      exact h.did fun deeds => Focus.step_tells stepped
  | @answered f f₁ f' below l l₁ l' _ _ control _ _ result _ running stepped asks set absorbed =>
      simp only [observe, running, if_true, advanced, List.length_cons, lt_irrefl, if_false]
      refine h.did fun deeds tells => ?_
      have bare := (Focus.step_answered stepped asks set).bare.told
      have resumed := Frame.tells_absorb absorbed (Focus.step_tells stepped tells) fun _ => bare
      rwa [List.append_nil, ite_self] at resumed
  | @entered f f₁ child below l l₁ l' _ _ control _ _ _ running stepped asks set =>
      simp only [observe, running, if_true, advanced, List.length_cons, Nat.lt_succ_self]
      obtain ⟨entered, -⟩ := (Focus.step_entered stepped asks set).enters
      have did : Recorded ⟨l₁, f₁ :: below, ‹Watch›⟩ _ :=
        h.did fun deeds => Focus.step_tells stepped
      refine did.enter ?_
      rw [entered.fresh]
      exact told_nil
  | @returned f parent parent' below l l' _ result ended completed absorbed =>
      simp only [observe, ended, Bool.false_eq_true, if_false, completed]
      exact h.finish fun deeds more tells mine =>
        Frame.tells_absorb absorbed tells (Frame.told_complete completed mine)

/-- What a run that ends in success reports is what survives in its chronicle. -/
theorem told_record {n : Nat} {result : CallResult} (h : Recorded m c)
    (done : iterate host n m = .finished result m') (success : result.success = true) :
    Told (record host n m c).survivors result.logs result.destroyed := by
  induction n generalizing m c with
  | zero => cases done
  | succ n ih =>
      simp only [iterate] at done
      simp only [record]
      cases advanced : m.advance host with
      | more next =>
          simp only [advanced] at done ⊢
          exact ih (h.step advanced) done
      | failed e last =>
          simp only [advanced] at done
          cases done
      | finished answer last =>
          simp only [advanced] at done ⊢
          cases done
          obtain ⟨f, l, watch, rfl, ended, completed⟩ := last_of_finished advanced
          simp only [observe, ended, Bool.false_eq_true, if_false, completed, success]
          exact h.last completed success

theorem told_chronicle {root : Frame} {l : Ledger} {watch : Watch} {result : CallResult}
    (tells : root.Tells []) (answered : (run host root l watch).result = .ok result)
    (success : result.success = true) :
    Told (chronicle host root l watch).survivors result.logs result.destroyed := by
  simp only [run] at answered
  simp only [chronicle]
  generalize iterationBound root.gas = n at answered ⊢
  cases done : iterate host n ⟨l, [root], watch⟩ with
  | more last | failed e last =>
      rw [done] at answered
      cases answered
  | finished answer last =>
      rw [done] at answered
      cases answered
      exact told_record (recorded_root tells) done success

end Machine
end EvmEngine
