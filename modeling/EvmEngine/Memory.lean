import EvmEngine.Bytes
import Std.Data.ExtTreeMap

/-!
The memory of one frame. Its size is a multiple of 32 and never shrinks; a byte that was never
written is zero. The bytes are held in pages of 1024. Growing memory makes places for its pages, but
a page comes into being only when it is first written. A page without a place cannot be written;
that there are places for all pages of a memory is part of what a memory is, so that a write, which
grows memory first, always finds one.
-/

namespace EvmEngine

def Memory.pageSize : Nat := 1024

structure Memory where
  size : Nat
  /-- The number of places for pages. -/
  slots : Nat
  /-- The pages that have been written to. -/
  pages : Std.ExtTreeMap Nat ByteArray
  placed : ∀ i ∈ pages, i < slots
  covered : size ≤ slots * Memory.pageSize

namespace Memory

def empty : Memory where
  size := 0
  slots := 0
  pages := ∅
  placed := by simp
  covered := Nat.le_refl 0

def words (m : Memory) : Nat :=
  m.size / 32

/-- The number of pages that have been written to. -/
def allocatedPages (m : Memory) : Nat :=
  m.pages.size

/-- Grows to a size, with as many places for pages as it takes. -/
def grow (m : Memory) (size : Nat) : Memory where
  size
  slots := max m.slots ((size + pageSize - 1) / pageSize)
  pages := m.pages
  placed i member := Nat.lt_of_lt_of_le (m.placed i member) (Nat.le_max_left ..)
  covered := by
    simp only [pageSize]
    omega

/-- Grows to cover a span, rounded up to a whole word; an empty span covers nothing. -/
def extend (m : Memory) (offset length : Nat) : Memory :=
  if length = 0 then m
  else
    let size := (offset + length + 31) / 32 * 32
    if m.size < size then m.grow size else m

/-- The byte at an address. -/
def byteAt (m : Memory) (address : Nat) : UInt8 :=
  match m.pages[address / pageSize]? with
  | none => 0
  | some page => page[address % pageSize]?.getD 0

/-- Appends the bytes of a span to `acc`, page by page. Addresses are machine integers: after the
last one comes zero. -/
def readPages (m : Memory) (offset length : Nat) (acc : ByteArray) : ByteArray :=
  if length = 0 then acc
  else
    let within := offset % pageSize
    let count := min (pageSize - within) length
    let piece :=
      match m.pages[offset / pageSize]? with
      | none => Bytes.zeros count
      | some page => page.extract within (within + count)
    readPages m ((offset + count) % UInt64.size) (length - count) (acc ++ piece)
termination_by length
decreasing_by
  have : offset % pageSize < pageSize := Nat.mod_lt _ (by decide)
  omega

/-- The bytes of a span, whether or not memory has grown to cover it. -/
def read (m : Memory) (offset length : Nat) : ByteArray :=
  readPages m offset length ByteArray.empty

/-- Grows to cover a span and reads it. -/
def extendAndRead (m : Memory) (offset length : Nat) : ByteArray × Memory :=
  (m.read offset length, m.extend offset length)

def readWord (m : Memory) (offset : Nat) : Word :=
  Word.ofBytes (m.read offset 32)

/-- Puts `count` bytes of `data`, from `start` on, into a page. -/
def fillPage (page : ByteArray) (within : Nat) (data : ByteArray) (start count : Nat) :
    ByteArray :=
  Nat.fold count (fun i _ page => page.set! (within + i) (data[start + i]?.getD 0)) page

/-- Puts a page in its place. -/
def setPage (m : Memory) (i : Nat) (page : ByteArray) (inside : i < m.slots) : Memory :=
  { m with
    pages := m.pages.insert i page
    placed := fun j member => by
      obtain same | member := Std.ExtTreeMap.mem_insert.mp member
      · exact Std.compare_eq_iff_eq.mp same ▸ inside
      · exact m.placed j member }

/-- Writes the bytes of `data` from `start` on, page by page; fails at a page that has no place. -/
def writePages? (m : Memory) (offset : Nat) (data : ByteArray) (start : Nat) : Option Memory :=
  if data.size ≤ start then some m
  else
    let within := offset % pageSize
    let count := min (pageSize - within) (data.size - start)
    let page := fillPage ((m.pages[offset / pageSize]?).getD (Bytes.zeros pageSize)) within data
      start count
    if inside : offset / pageSize < m.slots then
      writePages? (m.setPage (offset / pageSize) page inside) (offset + count) data (start + count)
    else none
termination_by data.size - start
decreasing_by
  have : offset % pageSize < pageSize := Nat.mod_lt _ (by decide)
  omega

/-- Data is written just where there are places for all of it. -/
theorem isSome_writePages? {m : Memory} {offset start : Nat} {data : ByteArray} :
    (m.writePages? offset data start).isSome = true ↔
      data.size ≤ start ∨ offset + (data.size - start) ≤ m.slots * pageSize := by
  fun_induction writePages? m offset data start with
  | case1 m offset start done => simp [done]
  | case2 m offset start more within count page inside ih =>
      have slots : (m.setPage (offset / pageSize) page inside).slots = m.slots := rfl
      have count_eq : count = min (pageSize - offset % pageSize) (data.size - start) := rfl
      rw [ih, slots]
      simp only [pageSize] at inside count_eq ⊢
      omega
  | case3 m offset start more outside =>
      simp only [pageSize, Option.isSome_none, Bool.false_eq_true, false_iff] at outside ⊢
      omega

/-- Grows to cover the data and writes it. -/
def write? (m : Memory) (offset : Nat) (data : ByteArray) : Option Memory :=
  (m.extend offset data.size).writePages? offset data 0

theorem isSome_write? (m : Memory) (offset : Nat) (data : ByteArray) :
    (m.write? offset data).isSome = true := by
  refine isSome_writePages?.mpr ?_
  by_cases nothing : data.size = 0
  · exact .inl (Nat.le_of_eq nothing)
  · refine .inr (Nat.le_trans ?_ (m.extend offset data.size).covered)
    simp only [extend, if_neg nothing]
    split
    · show _ ≤ (offset + data.size + 31) / 32 * 32
      omega
    · omega

/-- A memory into which data has been written. -/
def write (m : Memory) (offset : Nat) (data : ByteArray) : Memory :=
  (m.write? offset data).get (m.isSome_write? offset data)

def writeWord (m : Memory) (offset : Nat) (w : Word) : Memory :=
  m.write offset w.toBytes

def writeByte (m : Memory) (offset : Nat) (b : UInt8) : Memory :=
  m.write offset ⟨#[b]⟩

/-- Grows to cover a span and writes the data at its start: all of it, or, where `limited`, no more
than fits the span. -/
def extendAndWrite (m : Memory) (offset : Nat) (data : ByteArray) (length : Nat)
    (limited : Bool) : Memory :=
  (m.extend offset length).write offset
    (if limited then data.extract 0 (min length data.size) else data)

end Memory
end EvmEngine
