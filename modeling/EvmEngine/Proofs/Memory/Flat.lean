import EvmEngine.Proofs.Memory.Bytes

/-!
The memory that the pages stand for: one byte for every address, all of them zero at first. Whatever
is done with the pages, each read gives the bytes of that array, across however many pages and
whether or not they have been written to; the size covers the farthest span so far, there are places
for just so many pages as that takes, and no write ever misses one.
-/

namespace EvmEngine

/-- What can be done with a memory. -/
inductive MemoryOp
  | extend (offset length : Nat)
  | write (offset : Nat) (data : ByteArray)
  | writeWord (offset : Nat) (w : Word)
  | writeByte (offset : Nat) (b : UInt8)
  | extendAndWrite (offset : Nat) (data : ByteArray) (length : Nat) (limited : Bool)
  | extendAndRead (offset length : Nat)
  | read (offset length : Nat)

namespace MemoryOp

/-- The spans that an operation is about, as offsets and lengths. -/
def spans : MemoryOp → List (Nat × Nat)
  | extend offset length | extendAndRead offset length | read offset length => [(offset, length)]
  | write offset data => [(offset, data.size)]
  | writeWord offset _ => [(offset, 32)]
  | writeByte offset _ => [(offset, 1)]
  | extendAndWrite offset data length limited =>
      [(offset, length), (offset, if limited then min length data.size else data.size)]

/-- Every span ends so early that its end can be rounded up to a word in a machine integer. -/
def Fits (op : MemoryOp) : Prop :=
  ∀ span ∈ op.spans, span.1 + span.2 ≤ UInt64.size - 32

instance (op : MemoryOp) : Decidable op.Fits :=
  inferInstanceAs (Decidable (∀ span ∈ op.spans, span.1 + span.2 ≤ UInt64.size - 32))

end MemoryOp

namespace Memory

/-- Performs an operation, which answers the bytes that it reads and fails at a page without a
place. -/
def perform? (m : Memory) : MemoryOp → Option (ByteArray × Memory)
  | .extend offset length => some (ByteArray.empty, m.extend offset length)
  | .write offset data => do return (ByteArray.empty, ← m.write? offset data)
  | .writeWord offset w => do return (ByteArray.empty, ← m.write? offset w.toBytes)
  | .writeByte offset b => do return (ByteArray.empty, ← m.write? offset ⟨#[b]⟩)
  | .extendAndWrite offset data length limited => do
      let source := if limited then data.extract 0 (min length data.size) else data
      return (ByteArray.empty, ← (m.extend offset length).write? offset source)
  | .extendAndRead offset length => some (m.extendAndRead offset length)
  | .read offset length => some (m.read offset length, m)

/-- Performs operations one after the other and collects the answers. -/
def performAll? : Memory → List MemoryOp → Option (List ByteArray × Memory)
  | m, [] => some ([], m)
  | m, op :: ops => do
      let (answer, m) ← m.perform? op
      let (answers, m) ← m.performAll? ops
      return (answer :: answers, m)

/-- Performs an operation in the way that memory is used, where no write fails. -/
def perform (m : Memory) : MemoryOp → ByteArray × Memory
  | .extend offset length => (ByteArray.empty, m.extend offset length)
  | .write offset data => (ByteArray.empty, m.write offset data)
  | .writeWord offset w => (ByteArray.empty, m.writeWord offset w)
  | .writeByte offset b => (ByteArray.empty, m.writeByte offset b)
  | .extendAndWrite offset data length limited =>
      (ByteArray.empty, m.extendAndWrite offset data length limited)
  | .extendAndRead offset length => m.extendAndRead offset length
  | .read offset length => (m.read offset length, m)

theorem perform?_eq_some (m : Memory) (op : MemoryOp) : m.perform? op = some (m.perform op) := by
  cases op with
  | extend | extendAndRead | read => rfl
  | write | writeWord | writeByte | extendAndWrite =>
      simp only [perform?, write?_eq_some]
      rfl

end Memory

/-- A byte for every address, and the farthest end of the spans covered so far that are not
empty. -/
structure FlatMemory where
  bytes : Nat → UInt8
  reach : Nat

namespace FlatMemory

def blank : FlatMemory := ⟨fun _ => 0, 0⟩

/-- The bytes of a span. -/
def slice (bytes : Nat → UInt8) (offset length : Nat) : ByteArray :=
  ⟨Array.ofFn fun i : Fin length => bytes (offset + i)⟩

def cover (f : FlatMemory) (offset length : Nat) : FlatMemory :=
  if length = 0 then f else { f with reach := max f.reach (offset + length) }

/-- Puts data in place of the bytes of a span. -/
def put (f : FlatMemory) (offset : Nat) (data : ByteArray) : FlatMemory where
  bytes a := if offset ≤ a ∧ a < offset + data.size then data[a - offset]?.getD 0 else f.bytes a
  reach := (f.cover offset data.size).reach

def perform (f : FlatMemory) : MemoryOp → ByteArray × FlatMemory
  | .extend offset length => (ByteArray.empty, f.cover offset length)
  | .write offset data => (ByteArray.empty, f.put offset data)
  | .writeWord offset w => (ByteArray.empty, f.put offset w.toBytes)
  | .writeByte offset b => (ByteArray.empty, f.put offset ⟨#[b]⟩)
  | .extendAndWrite offset data length limited =>
      let source := if limited then data.extract 0 (min length data.size) else data
      (ByteArray.empty, (f.cover offset length).put offset source)
  | .extendAndRead offset length => (slice f.bytes offset length, f.cover offset length)
  | .read offset length => (slice f.bytes offset length, f)

def performAll : FlatMemory → List MemoryOp → List ByteArray × FlatMemory
  | f, [] => ([], f)
  | f, op :: ops =>
      let (answer, f) := f.perform op
      let (answers, f) := f.performAll ops
      (answer :: answers, f)

theorem slice_zero (bytes : Nat → UInt8) (offset : Nat) :
    slice bytes offset 0 = ByteArray.empty := by
  rw [slice, Array.ofFn_zero]
  rfl

theorem slice_add (bytes : Nat → UInt8) (offset n k : Nat) :
    slice bytes offset (n + k) = slice bytes offset n ++ slice bytes (offset + n) k := by
  apply ByteArray.ext
  rw [ByteArray.data_append]
  simp only [slice, Array.ofFn_add, Fin.val_natAdd, Fin.val_castLE, Nat.add_assoc]

end FlatMemory

open FlatMemory

namespace Memory

variable {m : Memory} {flat : FlatMemory}

/-- The part of a span that lies in one page is read as its bytes are. -/
theorem piece_eq_slice (h : m.Paged) {offset count : Nat}
    (inside : offset % pageSize + count ≤ pageSize) :
    (match m.pages[offset / pageSize]? with
      | none => Bytes.zeros count
      | some page => page.extract (offset % pageSize) (offset % pageSize + count)) =
      slice m.byteAt offset count := by
  have split := Nat.div_add_mod offset pageSize
  have place {i : Nat} (below : i < count) : (offset + i) / pageSize = offset / pageSize ∧
      (offset + i) % pageSize = offset % pageSize + i := by
    simp only [pageSize] at inside split ⊢
    omega
  cases known : m.pages[offset / pageSize]? with
  | none =>
      apply ByteArray.ext
      refine Array.ext (by simp [Bytes.zeros, slice]) fun i _ below => ?_
      have below : i < count := by simpa [slice] using below
      simp [Bytes.zeros, slice, byteAt, place below, known]
  | some page =>
      have full := h _ page known
      apply ByteArray.ext
      refine Array.ext ?_ fun i _ below => ?_
      · show (page.extract _ _).size = _
        rw [ByteArray.size_extract, full]
        simp only [slice, Array.size_ofFn]
        omega
      have below : i < count := by simpa [slice] using below
      simp only [ByteArray.data_extract, Array.getElem_extract, slice, Array.getElem_ofFn, byteAt,
        place below, known]
      rw [getElem?_pos page _ (by omega)]
      rfl

/-- What is read page by page is the span, byte by byte, with what was read before it in front. -/
theorem readPages_eq (h : m.Paged) (offset length : Nat) (acc : ByteArray)
    (fits : offset + length < UInt64.size) :
    m.readPages offset length acc = acc ++ slice m.byteAt offset length := by
  fun_induction Memory.readPages m offset length acc with
  | case1 => rw [slice_zero, ByteArray.append_empty]
  | case2 offset length acc more within count piece ih =>
      have below : offset % pageSize < pageSize := Nat.mod_lt _ (by decide)
      have inside : offset % pageSize + count ≤ pageSize := by omega
      have next : (offset + count) % UInt64.size = offset + count := Nat.mod_eq_of_lt (by omega)
      have read : piece = slice m.byteAt offset count := piece_eq_slice h inside
      rw [ih (by omega), next, read, ByteArray.append_assoc, ← slice_add]
      congr 2
      omega

theorem read_eq_slice (h : m.Paged) {offset length : Nat} (fits : offset + length < UInt64.size) :
    m.read offset length = slice m.byteAt offset length := by
  rw [read, readPages_eq h offset length _ fits, ByteArray.empty_append]

/-- A memory holds the bytes of a flat one, has grown to a whole number of words just beyond its
reach, and has as many places for pages as that takes. -/
structure Refines (m : Memory) (flat : FlatMemory) : Prop where
  bytes : m.byteAt = flat.bytes
  size : m.size = 32 * ((flat.reach + 31) / 32)
  slots : m.slots = (m.size + pageSize - 1) / pageSize
  paged : m.Paged

namespace Refines

theorem empty : Memory.empty.Refines .blank where
  bytes := by
    funext address
    simp [byteAt, Memory.empty, blank]
  size := rfl
  slots := rfl
  paged := paged_empty

theorem extend (h : m.Refines flat) (offset length : Nat) :
    (m.extend offset length).Refines (flat.cover offset length) where
  bytes := by
    funext address
    rw [byteAt_extend, h.bytes, cover]
    split <;> rfl
  size := by
    have size := h.size
    rw [size_extend, cover]
    split
    · exact size
    · dsimp only
      omega
  slots := by
    have slots := h.slots
    simp only [Memory.extend]
    split
    · exact slots
    · split
      · simp only [grow, pageSize] at slots ⊢
        omega
      · exact slots
  paged := h.paged.extend offset length

theorem write (h : m.Refines flat) (offset : Nat) (data : ByteArray) :
    (m.write offset data).Refines (flat.put offset data) where
  bytes := by
    funext address
    by_cases inside : offset ≤ address ∧ address < offset + data.size
    · obtain ⟨i, rfl⟩ := Nat.exists_eq_add_of_le inside.1
      rw [byteAt_write_of_inside h.paged (by omega), put]
      dsimp only
      rw [if_pos inside, Nat.add_sub_cancel_left]
    · rw [byteAt_write_of_outside (by omega), h.bytes]
      exact (if_neg inside).symm
  size := (size_write m offset data).trans (h.extend offset data.size).size
  slots := by
    rw [slots_write, size_write]
    exact (h.extend offset data.size).slots
  paged := h.paged.write offset data

theorem read (h : m.Refines flat) (offset length : Nat) (fits : offset + length < UInt64.size) :
    m.read offset length = slice flat.bytes offset length :=
  h.bytes ▸ read_eq_slice h.paged fits

/-- An operation answers the same on both and leaves them as they should be. -/
theorem perform (h : m.Refines flat) {op : MemoryOp} (fits : op.Fits) :
    (m.perform op).1 = (flat.perform op).1 ∧ (m.perform op).2.Refines (flat.perform op).2 := by
  have size : UInt64.size = 2 ^ 64 := rfl
  cases op with
  | extend offset length => exact ⟨rfl, h.extend offset length⟩
  | write offset data => exact ⟨rfl, h.write offset data⟩
  | writeWord offset w => exact ⟨rfl, h.write offset w.toBytes⟩
  | writeByte offset b => exact ⟨rfl, h.write offset ⟨#[b]⟩⟩
  | extendAndWrite offset data length limited =>
      exact ⟨rfl, (h.extend offset length).write offset _⟩
  | extendAndRead offset length =>
      have inside := fits (offset, length) List.mem_cons_self
      exact ⟨h.read offset length (by omega), h.extend offset length⟩
  | read offset length =>
      have inside := fits (offset, length) List.mem_cons_self
      exact ⟨h.read offset length (by omega), h⟩

theorem performAll (h : m.Refines flat) {ops : List MemoryOp} (fit : ∀ op ∈ ops, op.Fits) :
    ∃ m', m.performAll? ops = some ((flat.performAll ops).1, m') ∧
      m'.Refines (flat.performAll ops).2 := by
  induction ops generalizing m flat with
  | nil => exact ⟨m, rfl, h⟩
  | cons op ops ih =>
      obtain ⟨first, rest⟩ := List.forall_mem_cons.mp fit
      obtain ⟨answer, next⟩ := h.perform first
      obtain ⟨m', answers, last⟩ := ih next rest
      refine ⟨m', ?_, last⟩
      rw [performAll?, perform?_eq_some]
      simp only [Option.bind_eq_bind, Option.bind_some, answers, answer]
      rfl

end Refines

end Memory
end EvmEngine
