import EvmEngine.Proofs.Calls.Code

/-!
What setting a frame up and finishing it do to storage: nothing is ever written there. A creation
clears the slots of the account it is for, which has no code then, and code is deposited without
touching a slot. A call is only entered where there is code to be run, and so an account.
-/

namespace EvmEngine

open Effects Journaled

namespace World

/-- Each slot is as it was, or is cleared, and then its account had no code. -/
def Renews (w w' : World) : Prop :=
  ∀ a key, w'.slot? (a, key) = w.slot? (a, key) ∨
    (w'.slot? (a, key) = none ∧ (w.code a).isEmpty = true)

theorem Renews.refl (w : World) : w.Renews w :=
  fun _ _ => .inl rfl

theorem Renews.of_spared {w w' : World} (spared : ∀ a, Spared a w w') : w.Renews w' :=
  fun a key => .inl ((spared a).slots key)

/-- What keeps all slots may come before. -/
theorem Renews.before {w w₁ w' : World} (h : w₁.Renews w')
    (slots : ∀ place, w₁.slot? place = w.slot? place) (code : ∀ a, w₁.code a = w.code a) :
    w.Renews w' := by
  intro a key
  rw [← slots, ← code]
  exact h a key

/-- What keeps all slots may come after. -/
theorem Renews.after {w w₁ w' : World} (h : w.Renews w₁)
    (slots : ∀ place, w'.slot? place = w₁.slot? place) : w.Renews w' := by
  intro a key
  rw [slots]
  exact h a key

theorem Renews.isSome {w w' : World} (h : w.Renews w') {a : Address} {key : Word}
    (found : (w'.slot? (a, key)).isSome) : (w.slot? (a, key)).isSome := by
  obtain same | ⟨cleared, -⟩ := h a key
  · exact same ▸ found
  · rw [cleared] at found
    cases found

end World

open World

theorem Ledger.renews_createAccount {l : Ledger} {a : Address}
    (free : (l.world.code a).isEmpty = true) : l.world.Renews (l.createAccount a).world := by
  intro b key
  rw [createAccount, world_putAccount, world_clearStorage, slot?_setAccount, slot?_clearStorage]
  split
  · next same =>
      obtain rfl : b = a := same
      exact .inr ⟨rfl, free⟩
  · exact .inl rfl

namespace CreateRequest

variable {r : CreateRequest} {host : Host} {tx : TxContext} {depth : UInt64} {address : Address}
  {l : Ledger}

theorem enter_renews :
    Ensures (r.enter host tx depth address) l (fun _ l' => l.world.Renews l'.world)
      (fun _ _ => True) := by
  by_cases taken : l.world.Taken address
  · exact .of_ok (enter_taken taken) (.refl _)
  · refine .after (a := l) (t := l) rfl ?_
    rw [if_neg (fun collides => taken (collides_iff.mp collides))]
    have free : (l.world.code address).isEmpty = true := by
      simpa only [Bool.not_eq_false] using (not_or.mp taken).2
    have made : Edits (r.setUp host.rules address) l.checkpoint
        (fun _ w => l.world.Renews w) (fun _ => True) := by
      refine setUp_keeps (P := l.world.Renews) _ (l.checkpoint.renews_createAccount free)
        (fun l₁ account before => before.after ?_) fun w w' before spared => before.after ?_
      · simp
      · exact fun (a, key) => (spared a).slots key
    exact ((withinCheckpoint_ensures made).mono (fun _ _ done => done) fun _ _ _ => trivial).bind
      fun _ l₁ ⟨_, renews⟩ => .of_ok rfl renews

theorem prepare_renews :
    Ensures (r.prepare host tx depth) l (fun _ l' => l.world.Renews l'.world)
      (fun _ _ => True) := by
  refine .after (a := l) (t := l) rfl ?_
  split
  · exact .of_ok rfl (.refl _)
  · refine .after (a := l) (t := l) rfl (.after (t := l.bumpNonce r.creator) rfl ?_)
    refine enter_renews.bind fun prepared l₁ renews => .of_ok rfl (renews.before ?_ ?_)
    · simp [Ledger.bumpNonce, Ledger.modifyAccount]
    · exact l.code_bumpNonce r.creator

end CreateRequest

theorem CallRequest.code_of_setUp {r : CallRequest} {l l' : Ledger} {code : ByteArray}
    (h : (do
      if r.transfersValue then transfer r.caller r.address r.value
      return (← get).code r.codeAddress : Journaled ByteArray) l = .ok code l') :
    code = l'.world.code r.codeAddress := by
  split at h
  · obtain ⟨_, l₁, -, h⟩ := bind_eq_ok.mp h
    obtain ⟨_, _, got, h⟩ := bind_eq_ok.mp h
    cases got
    obtain ⟨rfl, rfl⟩ := pure_eq_ok.mp h
    rfl
  · obtain ⟨_, _, got, h⟩ := bind_eq_ok.mp h
    cases got
    obtain ⟨rfl, rfl⟩ := pure_eq_ok.mp h
    rfl

/-- A frame that is entered for a call runs the code that is there, so that its account exists. -/
theorem CallRequest.prepare_enters {r : CallRequest} {host : Host} {tx : TxContext}
    {depth : UInt64} {l l' : Ledger} {child : Frame}
    (h : r.prepare host tx depth l = .ok (.enter child) l') :
    child.env.address = r.address ∧ (l'.world.account? r.codeAddress).isSome := by
  obtain ⟨_, _, got, h⟩ := bind_eq_ok.mp h
  cases got
  split at h
  · obtain ⟨entered, -⟩ := pure_eq_ok.mp h
    cases entered
  · obtain ⟨code, l₁, opened, h⟩ := bind_eq_ok.mp h
    have runs := code_of_setUp (orDiscard_ok opened)
    generalize host.rules.precompileAt? r.codeAddress = precompile at h
    cases precompile with
    | some p =>
        obtain ⟨_, _, -, h⟩ := bind_eq_ok.mp h
        obtain ⟨entered, -⟩ := pure_eq_ok.mp h
        cases entered
    | none =>
        dsimp only at h
        split at h
        · obtain ⟨_, _, -, h⟩ := bind_eq_ok.mp h
          obtain ⟨entered, -⟩ := pure_eq_ok.mp h
          cases entered
        · next filled =>
            obtain ⟨entered, rfl⟩ := pure_eq_ok.mp h
            cases entered
            refine ⟨rfl, ?_⟩
            cases held : l₁.world.account? r.codeAddress with
            | some account => rfl
            | none =>
                rw [runs, World.code, held] at filled
                exact absurd rfl filled

namespace Frame

variable {f : Frame} {host : Host} {l : Ledger}

/-- A frame that is finished has the world go back to where it was entered, or leaves all slots as
they are. -/
theorem complete_slots {w : World} {rest : List World} (inside : l.saved = w :: rest) :
    Ensures (f.complete host) l
      (fun result l' => if result.success then
        ∀ place, l'.world.slot? place = l.world.slot? place else l'.world = w)
      (fun _ l' => l'.world = w) := by
  refine complete_keeps (P := fun w' => ∀ place, w'.slot? place = l.world.slot? place) inside
    (fun _ => rfl) fun a code l' _ stored place => ?_
  simp only [Ledger.saveCode] at stored
  split at stored
  · cases stored
    simp [Ledger.modifyAccount]
  · cases stored

end Frame
end EvmEngine
