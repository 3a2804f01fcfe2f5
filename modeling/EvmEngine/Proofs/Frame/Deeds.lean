import EvmEngine.Proofs.Frame.Absorb
import Mathlib.Data.List.Induction

/-!
The deeds of a frame that outlive it: the logs it writes and the accounts it destroys. A frame keeps
its logs one after the other and each destroyed account once, at the place where it was first noted;
taking over the record of a child is the same as having done the deeds of the child after its own.
-/

namespace EvmEngine

/-- Something done in a frame that lasts if the frame does. -/
inductive Deed
  | log (entry : Log)
  | destroy (account : Address)
  deriving DecidableEq

namespace Deed

def log? : Deed → Option Log
  | log entry => some entry
  | destroy _ => none

def destroyed? : Deed → Option Address
  | log _ => none
  | destroy account => some account

/-- Adds an account at the end of those seen, unless it is among them. -/
def noteOnce (seen : List Address) (a : Address) : List Address :=
  if seen.contains a then seen else seen ++ [a]

theorem eraseDups_concat (accounts : List Address) (a : Address) :
    (accounts ++ [a]).eraseDups = noteOnce accounts.eraseDups a := by
  rw [List.eraseDups_append, noteOnce, List.removeAll]
  by_cases seen : a ∈ accounts <;> simp [seen, List.eraseDups_cons]

theorem nodup_eraseDups (accounts : List Address) : accounts.eraseDups.Nodup := by
  induction accounts using List.reverseRecOn with
  | nil => exact .nil
  | append_singleton accounts a ih =>
      rw [eraseDups_concat, noteOnce]
      split
      · exact ih
      · next fresh =>
          have new : a ∉ accounts.eraseDups := by simpa using fresh
          refine List.nodup_append.mpr ⟨ih, List.pairwise_singleton _ a, fun b member c last => ?_⟩
          rintro rfl
          exact new (List.mem_singleton.mp last ▸ member)

theorem mem_foldl_noteOnce {seen accounts : List Address} {a : Address} :
    a ∈ accounts.foldl noteOnce seen ↔ a ∈ seen ∨ a ∈ accounts := by
  induction accounts generalizing seen with
  | nil => simp
  | cons b accounts ih =>
      have first : a ∈ noteOnce seen b ↔ a ∈ seen ∨ a = b := by
        simp only [noteOnce]
        split
        · next known =>
            have member : b ∈ seen := by simpa using known
            refine ⟨.inl, fun either => either.elim id ?_⟩
            rintro rfl
            exact member
        · simp
      rw [List.foldl_cons, ih, first, List.mem_cons, or_assoc]

/-- An account that is noted again changes nothing. -/
theorem foldl_eraseDups (seen accounts : List Address) :
    accounts.eraseDups.foldl noteOnce seen = accounts.foldl noteOnce seen := by
  induction accounts using List.reverseRecOn with
  | nil => rfl
  | append_singleton accounts a ih =>
      rw [eraseDups_concat, List.foldl_append, List.foldl_cons, List.foldl_nil]
      by_cases known : a ∈ accounts
      · have noted : noteOnce accounts.eraseDups a = accounts.eraseDups :=
          if_pos (by simpa using known)
        have again : noteOnce (accounts.foldl noteOnce seen) a = accounts.foldl noteOnce seen :=
          if_pos (by simpa using mem_foldl_noteOnce.mpr (.inr known))
        rw [noted, again, ih]
      · have noted : noteOnce accounts.eraseDups a = accounts.eraseDups ++ [a] :=
          if_neg (by simpa using known)
        rw [noted, List.foldl_append, List.foldl_cons, List.foldl_nil, ih]

theorem foldl_noteOnce (accounts more : List Address) :
    more.foldl noteOnce accounts.eraseDups = (accounts ++ more).eraseDups := by
  induction more generalizing accounts with
  | nil => simp
  | cons a more ih =>
      rw [List.foldl_cons, ← eraseDups_concat, ih, List.append_assoc, List.singleton_append]

/-- What is recorded of deeds: every log in order, and each destroyed account where it was first
noted. -/
structure Told (deeds : List Deed) (logs : Array Log) (destroyed : List Address) : Prop where
  logs : logs.toList = deeds.filterMap log?
  destroyed : destroyed = (deeds.filterMap destroyed?).eraseDups

variable {deeds more : List Deed} {logs logs' : Array Log} {destroyed destroyed' : List Address}

theorem told_nil : Told [] #[] [] :=
  ⟨rfl, rfl⟩

theorem Told.log (h : Told deeds logs destroyed) (entry : Log) :
    Told (deeds ++ [.log entry]) (logs.push entry) destroyed where
  logs := by simp [h.logs, log?]
  destroyed := by
    rw [h.destroyed, List.filterMap_append]
    exact congrArg List.eraseDups (List.append_nil _).symm

theorem Told.destroy (h : Told deeds logs destroyed) (a : Address) :
    Told (deeds ++ [.destroy a]) logs (noteOnce destroyed a) where
  logs := by simp [h.logs, log?]
  destroyed := by
    rw [h.destroyed, ← eraseDups_concat, List.filterMap_append]
    rfl

theorem Told.merge (h : Told deeds logs destroyed) (child : Told more logs' destroyed') :
    Told (deeds ++ more) (logs ++ logs') (destroyed'.foldl noteOnce destroyed) where
  logs := by simp [h.logs, child.logs]
  destroyed := by
    rw [h.destroyed, child.destroyed, foldl_eraseDups, foldl_noteOnce, List.filterMap_append]

end Deed

open Deed

namespace Frame

variable {f f' : Frame} {deeds more : List Deed} {result : CallResult} {target : ReturnTarget}

/-- The record that a frame keeps is that of these deeds. -/
abbrev Tells (f : Frame) (deeds : List Deed) : Prop :=
  Told deeds f.logs f.destroyed

theorem recordDestroyed_eq (f : Frame) (a : Address) :
    f.recordDestroyed a = { f with destroyed := noteOnce f.destroyed a } := by
  simp only [recordDestroyed, noteOnce]
  split <;> rfl

theorem foldl_recordDestroyed_eq (accounts : List Address) (f : Frame) :
    accounts.foldl recordDestroyed f =
      { f with destroyed := accounts.foldl noteOnce f.destroyed } := by
  induction accounts generalizing f with
  | nil => rfl
  | cons a accounts ih => rw [List.foldl_cons, ih, recordDestroyed_eq, List.foldl_cons]

theorem Tells.merge (h : f.Tells deeds) (child : Told more result.logs result.destroyed) :
    (f.merge result).Tells (deeds ++ more) := by
  rw [Frame.merge, foldl_recordDestroyed_eq]
  exact Told.merge h child

/-- A frame takes the record of a child over where that succeeded, and nothing otherwise. -/
theorem Tells.resumed (h : f.Tells deeds)
    (child : result.success = true → Told more result.logs result.destroyed) :
    (f.resumed result target).Tells (if result.success then deeds ++ more else deeds) := by
  have received : ({ f.receive result target with
      stack := ⟨result.flag target :: f.stack.words⟩ } : Frame).Tells deeds := by
    cases target <;> exact h
  simp only [Frame.resumed]
  split
  · next success => exact received.merge (child success)
  · exact received

end Frame

theorem CallResult.Bare.told {result : CallResult} (bare : result.Bare) :
    Told [] result.logs result.destroyed := by
  rw [bare.logs, bare.destroyed]
  exact told_nil

end EvmEngine
