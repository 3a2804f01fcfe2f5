import EvmEngine.Proofs.Ledger.WellFormed
import EvmEngine.Proofs.Machine.History
import EvmEngine.Proofs.Machine.Layers

/-!
The accounts that frames act on. Each open frame acts on an account that exists, in the present world
and in every world that the run can still go back to while the frame is open; so no slot is ever
written without its account, and the world stays well formed.
-/

namespace EvmEngine

open Effects

namespace Control

/-- A frame that is entered acts on an account that exists by then, if the frame that asks does. -/
theorem Asks.inhabits {host : Host} {s s₁ : Focus} {fetched : Fetched} {control : Control}
    {gas : UInt64} {action : Journaled (Prepared × ReturnTarget)} {target : ReturnTarget}
    {child : Frame} {l' : Ledger} (asks : control.Asks host s₁.frame.env gas action)
    (stepped : s.step host fetched = .ok control s₁)
    (set : action s₁.ledger = .ok (.enter child, target) l')
    (exists' : (l'.world.account? s.frame.env.address).isSome) :
    (l'.world.account? child.env.address).isSome := by
  cases asks with
  | call r =>
      obtain ⟨prepared, l, prepares, done⟩ := bind_eq_ok.mp set
      obtain ⟨entered, rfl⟩ := pure_eq_ok.mp done
      cases entered
      obtain ⟨address, runs⟩ := CallRequest.prepare_enters prepares
      obtain ⟨_, scheme, _, -, -, pays, rfl, -⟩ := Focus.step_call stepped
      rw [address]
      cases scheme with
      | call | staticCall => exact runs
      | callCode | delegateCall =>
          have own : s₁.frame.env.address = s.frame.env.address :=
            congrArg Environment.address pays.env
          show (l.world.account? s₁.frame.env.address).isSome
          rwa [own]
  | create r =>
      obtain ⟨⟨prepared, address⟩, l, prepares, done⟩ := bind_eq_ok.mp set
      obtain ⟨entered, rfl⟩ := pure_eq_ok.mp done
      cases entered
      obtain ⟨created, follows⟩ := CreateRequest.prepare_ensures.ok prepares
      obtain ⟨-, -, rfl⟩ := follows.enters
      exact follows.moved.2

end Control

namespace Machine

variable {host : Host} {m m' : Machine}

/-- The world is well formed, and the accounts that the frames act on are there. -/
structure Inhabited (frames : List Frame) (w : World) : Prop where
  wellFormed : w.WellFormed
  there : ∀ f ∈ frames, (w.account? f.env.address).isSome

namespace Inhabited

variable {f f' child : Frame} {below : List Frame} {w w' : World}

theorem replace (h : Inhabited (f :: below) w) (same : f'.env = f.env) :
    Inhabited (f' :: below) w := by
  refine ⟨h.wellFormed, List.forall_mem_cons.mpr ?_⟩
  rw [same]
  exact List.forall_mem_cons.mp h.there

/-- Writes that fill slots of these accounts only. -/
theorem write {frames : List Frame} (h : Inhabited frames w) (writes : World.Writes w w')
    (fills : ∀ a key, (w'.slot? (a, key)).isSome → (w.slot? (a, key)).isSome ∨
      ∃ f ∈ frames, a = f.env.address) : Inhabited frames w' := by
  refine ⟨h.wellFormed.write writes fun a key found => ?_, fun f member =>
    writes.isSome (h.there f member)⟩
  obtain before | ⟨f, member, rfl⟩ := fills a key found
  · exact .inl before
  · exact .inr (h.there f member)

theorem step {l l' : Ledger} {fetched : Fetched} {control : Control}
    (h : Inhabited (f :: below) l.world)
    (stepped : Focus.step ⟨f, l⟩ host fetched = .ok control ⟨f', l'⟩) :
    Inhabited (f' :: below) l'.world := by
  refine (h.write ((Focus.step_edits _ host _).ok stepped) fun a key found => ?_).replace
    (Focus.Keeps.of_step_ok stepped).env
  obtain same | own := Focus.slots_of_step stepped a key
  · exact .inl (same ▸ found)
  · exact .inr ⟨f, List.mem_cons_self, own⟩

theorem renew {frames : List Frame} (h : Inhabited frames w) (writes : World.Writes w w')
    (renews : w.Renews w') : Inhabited frames w' :=
  h.write writes fun _ _ found => .inl (renews.isSome found)

theorem enter (h : Inhabited below w) (there : (w.account? child.env.address).isSome) :
    Inhabited (child :: below) w :=
  ⟨h.wellFormed, List.forall_mem_cons.mpr ⟨there, h.there⟩⟩

theorem leave (h : Inhabited (f :: below) w) : Inhabited below w :=
  ⟨h.wellFormed, (List.forall_mem_cons.mp h.there).2⟩

/-- A frame that is finished leaves a world as it should be, be it that of its checkpoint. -/
theorem complete {result : CallResult} {l l' : Ledger} {saved : List World}
    (h : Layered Inhabited (f :: below) l.world (w :: saved)) (inside : l.saved = w :: saved)
    (completed : f.complete host l = .ok result l') : Inhabited below l'.world := by
  have slots := (Frame.complete_slots inside).ok completed
  cases success : result.success with
  | true =>
      rw [if_pos success] at slots
      have writes := ((Frame.complete_ensures inside).ok completed).2.2 success
      exact h.top.leave.write writes fun a key found => .inl (slots (a, key) ▸ found)
  | false =>
      rw [if_neg (by simp [success])] at slots
      exact slots ▸ h.leave.top

end Inhabited

theorem Step.inhabited (step : Step host m m')
    (h : Layered Inhabited m.frames m.ledger.world m.ledger.saved) :
    Layered Inhabited m'.frames m'.ledger.world m'.ledger.saved := by
  cases step with
  | ran running stepped quiet =>
      exact (Focus.Keeps.of_step_ok stepped).saved ▸ h.replace (h.top.step stepped)
  | @answered f f₁ f' below l l₁ l' _ _ control _ _ result _ running stepped asks set absorbed =>
      have kept := Focus.Keeps.of_step_ok stepped
      have answers := Focus.step_answered stepped asks set
      have saved : l'.saved = l.saved :=
        answers.saved.trans ((Control.saved_opening ..).trans kept.saved)
      have writes := (control.writes_opening host.rules f₁.env l₁).trans answers.writes
      have top := ((h.top.step stepped).renew writes (asks.renews.ok set)).replace
        (Frame.absorb_ok absorbed).env
      exact saved ▸ h.replace top
  | @entered f f₁ child below l l₁ l' _ _ control _ _ _ running stepped asks set =>
      have kept := Focus.Keeps.of_step_ok stepped
      have opens := Focus.step_entered stepped asks set
      have saved : l'.saved = (control.opening host.rules f₁.env l₁).world :: l.saved := by
        rw [opens.saved, Control.saved_opening, kept.saved]
      have opened := control.writes_opening host.rules f₁.env l₁
      have asked := (h.top.step stepped).renew opened (control.renews_opening host.rules f₁.env l₁)
      have below := (h.top.step stepped).renew (opened.trans opens.moved) (asks.renews.ok set)
      rw [saved]
      refine (h.replace asked).enter (below.enter (asks.inhabits stepped set ?_))
      rw [← kept.env]
      exact below.there f₁ List.mem_cons_self
  | @returned f parent parent' below l l' _ result ended completed absorbed =>
      obtain ⟨w, rest, saved⟩ := h.saved_eq
      rw [saved] at h
      rw [((Frame.complete_ensures saved).ok completed).1]
      exact h.leave.replace ((Inhabited.complete h saved completed).replace
        (Frame.absorb_ok absorbed).env)

theorem inhabited_of_iterate {n : Nat}
    (before : Layered Inhabited m.frames m.ledger.world m.ledger.saved)
    (reached : iterate host n m = .more m') :
    Layered Inhabited m'.frames m'.ledger.world m'.ledger.saved :=
  (iterate_keeps (P := fun m => Layered Inhabited m.frames m.ledger.world m.ledger.saved)
    (fun _ _ step before => step.inhabited before) n before).1 m' reached

/-- A run that gives a result leaves a world that is well formed. -/
theorem run_wellFormed {root : Frame} {l : Ledger} {watch : Watch} {result : CallResult}
    (before : Layered Inhabited [root] l.world l.saved)
    (h : (run host root l watch).result = .ok result) :
    (run host root l watch).ledger.world.WellFormed := by
  simp only [run] at h ⊢
  generalize iterationBound root.gas = n at h ⊢
  obtain ⟨last, m', layered, done, ledger⟩ := outcome_ok (m := ⟨l, [root], watch⟩)
    (P := fun m => Layered Inhabited m.frames m.ledger.world m.ledger.saved)
    (fun _ _ step before => step.inhabited before) before h
  rw [ledger]
  obtain ⟨f, l, watch, rfl, -, completed⟩ := last_of_finished done
  obtain ⟨w, rest, saved⟩ := layered.saved_eq
  rw [saved] at layered
  exact (Inhabited.complete layered saved completed).wellFormed

end Machine
end EvmEngine
