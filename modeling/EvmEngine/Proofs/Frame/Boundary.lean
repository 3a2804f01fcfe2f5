import EvmEngine.JumpDests

/-!
Where the instructions of a code begin. A sweep from the start goes from each instruction to the
next, past the operand of a push, which may reach beyond the end of the code. The marks for jumps
are made by counting the bytes of an operand down; the count is zero exactly where the sweep comes
by.
-/

namespace EvmEngine

/-- The places to which a sweep of the code from its start comes. Only the last of them can lie
outside the code. -/
inductive Boundary (code : ByteArray) : Nat → Prop
  | start : Boundary code 0
  | next {p : Nat} {byte : UInt8} (before : Boundary code p) (here : code[p]? = some byte) :
      Boundary code (p + 1 + (pushSize? byte).getD 0)

/-- No operand is longer than a word. -/
theorem pushSize?_le (byte : UInt8) : (pushSize? byte).getD 0 ≤ 32 := by
  simp only [pushSize?]
  split
  · next isPush =>
      simp only [Bool.and_eq_true, decide_eq_true_eq] at isPush
      have high : byte.toNat ≤ 0x7f := UInt8.le_iff_toNat_le.mp isPush.2
      rw [Option.getD_some]
      omega
  · exact Nat.zero_le 32

namespace JumpDests

/-- The number of operand bytes still to come after a byte. -/
def countdown (operand : Nat) (byte : UInt8) : Nat :=
  match operand with
  | operand + 1 => operand
  | 0 => (pushSize? byte).getD 0

/-- The number of operand bytes still to come where the sweep has got to a place. -/
def pending (code : ByteArray) (p : Nat) : Nat :=
  (code.data.toList.take p).foldl countdown 0

/-- The marks for some bytes that come after a number of operand bytes. -/
def marksFrom (operand : Nat) : List UInt8 → List UInt8
  | [] => []
  | byte :: bytes =>
      (if operand = 0 ∧ byte = 0x5b then 1 else 0) :: marksFrom (countdown operand byte) bytes

theorem mark_eq (state : ByteArray × Nat) (byte : UInt8) :
    mark state byte =
      (state.1.push (if state.2 = 0 ∧ byte = 0x5b then 1 else 0), countdown state.2 byte) := by
  obtain ⟨marks, operand⟩ := state
  cases operand with
  | zero => simp [mark, countdown]
  | succ operand => simp [mark, countdown]

theorem marks_foldl (bytes : List UInt8) (marks : ByteArray) (operand : Nat) :
    (bytes.foldl mark (marks, operand)).1.data.toList =
      marks.data.toList ++ marksFrom operand bytes := by
  induction bytes generalizing marks operand with
  | nil => simp [marksFrom]
  | cons byte bytes ih =>
      rw [List.foldl_cons, mark_eq, ih, marksFrom, ByteArray.data_push, Array.toList_push,
        List.append_assoc, List.singleton_append]

theorem getElem?_marksFrom (bytes : List UInt8) (operand p : Nat) :
    (marksFrom operand bytes)[p]? = bytes[p]?.map fun byte =>
      if (bytes.take p).foldl countdown operand = 0 ∧ byte = 0x5b then 1 else 0 := by
  induction bytes generalizing operand p with
  | nil => rfl
  | cons byte bytes ih =>
      cases p with
      | zero => rfl
      | succ p => exact ih _ p

/-- A jump may go to a jump marker that the sweep does not count among the bytes of an operand. -/
theorem contains_ofCode (code : ByteArray) (p : Nat) :
    (ofCode code).contains p = true ↔ pending code p = 0 ∧ code[p]? = some 0x5b := by
  have place : (ofCode code).marks[p]? = code[p]?.map fun byte =>
      if pending code p = 0 ∧ byte = 0x5b then 1 else 0 := by
    show (ofCode code).marks.data[p]? = code.data[p]?.map _
    rw [← Array.getElem?_toList, ← Array.getElem?_toList, ofCode, ← Array.foldl_toList,
      marks_foldl]
    exact getElem?_marksFrom code.data.toList 0 p
  rw [contains, place]
  cases code[p]? with
  | none => simp
  | some byte =>
      by_cases reached : pending code p = 0 <;> by_cases isMarker : byte = 0x5b <;>
        simp [reached, isMarker]

variable {code : ByteArray} {p : Nat}

theorem pending_succ {byte : UInt8} (here : code[p]? = some byte) :
    pending code (p + 1) = countdown (pending code p) byte := by
  have inside : code.data.toList[p]? = some byte := by
    rw [Array.getElem?_toList]
    exact here
  rw [pending, List.take_add_one, inside, Option.toList_some, List.foldl_append]
  rfl

/-- Within an operand the count goes down by one with each byte. -/
theorem pending_add (n : Nat) (operand : n ≤ pending code p) (inside : p + n ≤ code.size) :
    pending code (p + n) = pending code p - n := by
  induction n with
  | zero => rfl
  | succ n ih =>
      have before := ih (Nat.le_of_succ_le operand) (Nat.le_of_succ_le inside)
      have here : code[p + n]? = some code[p + n] := getElem?_pos code (p + n) inside
      rw [← Nat.add_assoc, pending_succ here, before]
      obtain ⟨left, more⟩ := Nat.exists_eq_succ_of_ne_zero (Nat.sub_ne_zero_of_lt operand)
      rw [more, countdown]
      omega

/-- The end of the operand that a place lies in is one to which the sweep comes. -/
theorem boundary_pending (inside : p ≤ code.size) : Boundary code (p + pending code p) := by
  induction p with
  | zero => exact .start
  | succ p ih =>
      have before := ih (Nat.le_of_succ_le inside)
      have here : code[p]? = some code[p] := getElem?_pos code p inside
      rw [pending_succ here]
      cases operand : pending code p with
      | zero =>
          rw [operand, Nat.add_zero] at before
          exact before.next here
      | succ left =>
          rw [operand] at before
          rwa [countdown, Nat.add_right_comm]

theorem pending_of_boundary (h : Boundary code p) (inside : p ≤ code.size) :
    pending code p = 0 := by
  induction h with
  | start => rfl
  | @next p byte _ here ih =>
      obtain ⟨short, -⟩ := getElem?_eq_some_iff.mp here
      have opened : pending code (p + 1) = (pushSize? byte).getD 0 := by
        rw [pending_succ here, ih (Nat.le_of_lt short)]
        rfl
      rw [pending_add _ (Nat.le_of_eq opened.symm) inside, opened, Nat.sub_self]

theorem boundary_iff_pending (inside : p ≤ code.size) :
    Boundary code p ↔ pending code p = 0 := by
  refine ⟨fun h => pending_of_boundary h inside, fun none => ?_⟩
  simpa only [none, Nat.add_zero] using boundary_pending inside

/-- The places marked for jumps are the jump markers at which an instruction begins. -/
theorem contains_ofCode_iff (code : ByteArray) (p : Nat) :
    (ofCode code).contains p = true ↔ Boundary code p ∧ code[p]? = some 0x5b := by
  rw [contains_ofCode]
  refine and_congr_left fun here => ?_
  obtain ⟨short, -⟩ := getElem?_eq_some_iff.mp here
  exact (boundary_iff_pending (Nat.le_of_lt short)).symm

end JumpDests
end EvmEngine
