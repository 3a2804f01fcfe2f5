import EvmEngine.Memory

/-!
Memory seen byte by byte. Growing it changes no byte; a write puts its data in place and leaves
every byte beside it alone, across as many pages as it takes. That what is written can be read back
needs whole pages, which every operation keeps.
-/

namespace EvmEngine

namespace Memory

variable {m : Memory}

/-- All pages have their full size. -/
def Paged (m : Memory) : Prop :=
  ∀ (i : Nat) (page : ByteArray), m.pages[i]? = some page → page.size = pageSize

theorem paged_empty : empty.Paged := by
  simp [Paged, empty]

@[simp] theorem pages_extend (m : Memory) (offset length : Nat) :
    (m.extend offset length).pages = m.pages := by
  simp only [extend]
  split
  · rfl
  · split <;> rfl

theorem size_extend (m : Memory) (offset length : Nat) :
    (m.extend offset length).size =
      if length = 0 then m.size else max m.size ((offset + length + 31) / 32 * 32) := by
  simp only [extend]
  split
  · rfl
  · split
    · exact (Nat.max_eq_right (Nat.le_of_lt ‹_›)).symm
    · exact (Nat.max_eq_left (Nat.le_of_not_lt ‹_›)).symm

theorem Paged.extend (h : m.Paged) (offset length : Nat) : (m.extend offset length).Paged := by
  intro i page found
  rw [pages_extend] at found
  exact h i page found

@[simp] theorem byteAt_extend (m : Memory) (offset length address : Nat) :
    (m.extend offset length).byteAt address = m.byteAt address := by
  simp only [byteAt, pages_extend]

theorem getElem?_set! (page : ByteArray) (i j : Nat) (b : UInt8) :
    (page.set! i b)[j]? = if i = j ∧ j < page.size then some b else page[j]? := by
  have data (bytes : ByteArray) : bytes[j]? = bytes.data[j]? := rfl
  rw [data, data]
  show (page.data.setIfInBounds i b)[j]? = _
  rw [Array.getElem?_setIfInBounds]
  by_cases same : i = j
  · subst same
    by_cases inside : i < page.size
    · have within : i < page.data.size := inside
      simp [inside]
    · have beyond : ¬ i < page.data.size := inside
      simp [inside]
  · simp [same]

theorem size_fillPage (page data : ByteArray) (within start count : Nat) :
    (fillPage page within data start count).size = page.size := by
  simp only [fillPage]
  induction count with
  | zero => rfl
  | succ n ih => rw [Nat.fold_succ, ByteArray.size_set!, ih]

theorem getElem?_fillPage (page data : ByteArray) (within start count j : Nat) :
    (fillPage page within data start count)[j]? =
      if within ≤ j ∧ j < within + count ∧ j < page.size then
        some (data[start + (j - within)]?.getD 0)
      else page[j]? := by
  induction count with
  | zero =>
      rw [if_neg (by omega)]
      rfl
  | succ n ih =>
      have size : (fillPage page within data start n).size = page.size := size_fillPage ..
      have last : fillPage page within data start (n + 1) =
          (fillPage page within data start n).set! (within + n) (data[start + n]?.getD 0) := by
        simp only [fillPage, Nat.fold_succ]
      rw [last, getElem?_set!, size, ih]
      by_cases here : within + n = j
      · subst here
        by_cases inside : within + n < page.size
        · simp [inside]
        · simp [inside]
      · by_cases before : within ≤ j ∧ j < within + n ∧ j < page.size
        · rw [if_neg (by omega), if_pos before, if_pos (by omega)]
        · rw [if_neg (by omega), if_neg before, if_neg (by omega)]

/-- The page of an address, with bytes of `data` put into it. -/
def filledPage (m : Memory) (offset : Nat) (data : ByteArray) (start count : Nat) : ByteArray :=
  fillPage ((m.pages[offset / pageSize]?).getD (Bytes.zeros pageSize)) (offset % pageSize) data
    start count

/-- A memory in which one page is filled in part. -/
def fill (m : Memory) (offset : Nat) (data : ByteArray) (start count : Nat)
    (inside : offset / pageSize < m.slots) : Memory :=
  m.setPage (offset / pageSize) (m.filledPage offset data start count) inside

variable {m' : Memory} {offset start count address : Nat} {data : ByteArray}
  {place : offset / pageSize < m.slots}

theorem size_oldPage (h : m.Paged) (i : Nat) :
    ((m.pages[i]?).getD (Bytes.zeros pageSize)).size = pageSize := by
  cases known : m.pages[i]? with
  | none => exact Array.size_replicate
  | some page => exact h i page known

theorem Paged.fill (h : m.Paged) (place : offset / pageSize < m.slots) :
    (m.fill offset data start count place).Paged := by
  intro i page found
  simp only [Memory.fill, setPage, Std.ExtTreeMap.getElem?_insert] at found
  split at found
  · cases found
    rw [filledPage, size_fillPage]
    exact size_oldPage h _
  · exact h i page found

theorem byteAt_fill_of_outside (outside : address < offset ∨ offset + count ≤ address) :
    (m.fill offset data start count place).byteAt address = m.byteAt address := by
  have split := Nat.div_add_mod address pageSize
  have split' := Nat.div_add_mod offset pageSize
  simp only [byteAt, fill, setPage, Std.ExtTreeMap.getElem?_insert, Std.compare_eq_iff_eq]
  by_cases same : offset / pageSize = address / pageSize
  · rw [same] at split'
    rw [if_pos same, filledPage, same]
    dsimp only
    rw [getElem?_fillPage, if_neg (by omega)]
    cases m.pages[address / pageSize]? with
    | none =>
        show ((Array.replicate pageSize (0 : UInt8))[address % pageSize]?).getD 0 = 0
        rw [Array.getElem?_replicate]
        split <;> rfl
    | some page => rfl
  · rw [if_neg same]

theorem byteAt_fill_of_inside (h : m.Paged) (fits : offset % pageSize + count ≤ pageSize)
    (inside : offset ≤ address) (below : address < offset + count) :
    (m.fill offset data start count place).byteAt address =
      data[start + (address - offset)]?.getD 0 := by
  have split := Nat.div_add_mod address pageSize
  have split' := Nat.div_add_mod offset pageSize
  have same : offset / pageSize = address / pageSize := by
    simp only [pageSize] at fits ⊢
    omega
  simp only [byteAt, fill, setPage, Std.ExtTreeMap.getElem?_insert, Std.compare_eq_iff_eq]
  rw [if_pos same]
  dsimp only
  rw [filledPage, getElem?_fillPage, size_oldPage h]
  rw [same] at split'
  rw [if_pos (by omega), show address % pageSize - offset % pageSize = address - offset by omega]
  rfl

theorem kept_of_writePages? (written : m.writePages? offset data start = some m') :
    m'.size = m.size ∧ m'.slots = m.slots := by
  fun_induction Memory.writePages? m offset data start with
  | case1 =>
      cases written
      exact ⟨rfl, rfl⟩
  | case2 m offset start more within count page place ih => exact ih written
  | case3 => cases written

theorem Paged.writePages? (h : m.Paged) (written : m.writePages? offset data start = some m') :
    m'.Paged := by
  fun_induction Memory.writePages? m offset data start with
  | case1 => exact Option.some.inj written ▸ h
  | case2 m offset start more within count page place ih => exact ih (h.fill place) written
  | case3 => cases written

theorem byteAt_writePages?_of_outside (written : m.writePages? offset data start = some m')
    (outside : address < offset ∨ offset + (data.size - start) ≤ address) :
    m'.byteAt address = m.byteAt address := by
  fun_induction Memory.writePages? m offset data start with
  | case1 => rw [Option.some.inj written]
  | case2 m offset start more within count page place ih =>
      have bound : count ≤ data.size - start := Nat.min_le_right _ _
      rw [ih written (by omega)]
      refine byteAt_fill_of_outside ?_
      omega
  | case3 => cases written

theorem byteAt_writePages?_of_inside (h : m.Paged)
    (written : m.writePages? offset data start = some m') (inside : offset ≤ address)
    (below : address < offset + (data.size - start)) :
    m'.byteAt address = data[start + (address - offset)]?.getD 0 := by
  fun_induction Memory.writePages? m offset data start with
  | case1 => omega
  | case2 m offset start more within count page place ih =>
      have bound : count ≤ data.size - start := Nat.min_le_right _ _
      by_cases here : address < offset + count
      · rw [byteAt_writePages?_of_outside written (by omega)]
        have fits : offset % pageSize + count ≤ pageSize := by
          have := Nat.min_le_left (pageSize - offset % pageSize) (data.size - start)
          have := Nat.mod_lt offset (show 0 < pageSize by decide)
          omega
        exact byteAt_fill_of_inside h fits inside here
      · rw [ih (h.fill place) written (by omega) (by omega)]
        congr 2
        omega
  | case3 => cases written

/-- A write never fails. -/
theorem write?_eq_some (m : Memory) (offset : Nat) (data : ByteArray) :
    m.write? offset data = some (m.write offset data) :=
  (Option.some_get _).symm

theorem size_write (m : Memory) (offset : Nat) (data : ByteArray) :
    (m.write offset data).size = (m.extend offset data.size).size :=
  (kept_of_writePages? (m.write?_eq_some offset data)).1

theorem slots_write (m : Memory) (offset : Nat) (data : ByteArray) :
    (m.write offset data).slots = (m.extend offset data.size).slots :=
  (kept_of_writePages? (m.write?_eq_some offset data)).2

theorem Paged.write (h : m.Paged) (offset : Nat) (data : ByteArray) :
    (m.write offset data).Paged :=
  (h.extend offset data.size).writePages? (m.write?_eq_some offset data)

theorem byteAt_write_of_outside (outside : address < offset ∨ offset + data.size ≤ address) :
    (m.write offset data).byteAt address = m.byteAt address := by
  rw [byteAt_writePages?_of_outside (m.write?_eq_some offset data) (by omega), byteAt_extend]

theorem byteAt_write_of_inside (h : m.Paged) {i : Nat} (inside : i < data.size) :
    (m.write offset data).byteAt (offset + i) = data[i]?.getD 0 := by
  rw [byteAt_writePages?_of_inside (h.extend offset data.size) (m.write?_eq_some offset data)
    (Nat.le_add_right _ _) (by omega), Nat.zero_add, Nat.add_sub_cancel_left]

/-- The memory has grown to cover a span. -/
def Covers (m : Memory) (offset length : Nat) : Prop :=
  m.extend offset length = m

theorem covers_iff {length : Nat} :
    m.Covers offset length ↔ length = 0 ∨ (offset + length + 31) / 32 * 32 ≤ m.size := by
  constructor
  · intro h
    have grown := congrArg Memory.size h
    rw [size_extend] at grown
    split at grown
    · next nothing => exact .inl nothing
    · exact .inr (grown ▸ Nat.le_max_right ..)
  · intro h
    simp only [Covers, extend]
    split
    · rfl
    · exact if_neg (by omega)

theorem covers_extend (m : Memory) (offset length : Nat) :
    (m.extend offset length).Covers offset length := by
  rw [covers_iff, size_extend]
  split
  · next nothing => exact .inl nothing
  · exact .inr (Nat.le_max_right ..)

theorem Covers.mono {length less : Nat} (h : m.Covers offset length) (le : less ≤ length) :
    m.Covers offset less := by
  rw [covers_iff] at h ⊢
  omega

theorem words_extend (m : Memory) (offset : Nat) {length : Nat} (some : length ≠ 0) :
    (m.extend offset length).words = max m.words ((offset + length + 31) / 32) := by
  rw [words, words, size_extend, if_neg some]
  omega

/-- Writing where memory has grown already does not make it grow. -/
theorem Covers.size_write {length : Nat} (h : m.Covers offset length)
    (fits : data.size ≤ length) : (m.write offset data).size = m.size := by
  rw [Memory.size_write, show m.extend offset data.size = m from h.mono fits]

theorem Covers.size_extendAndWrite {offset length : Nat} (h : m.Covers offset length)
    (data : ByteArray) : (m.extendAndWrite offset data length true).size = m.size := by
  have fits : (data.extract 0 (min length data.size)).size ≤ length := by
    rw [ByteArray.size_extract]
    omega
  rw [extendAndWrite, if_pos rfl, show m.extend offset length = m from h]
  exact h.size_write fits

/-- Bytes are put over those that were there, and nothing else changes. -/
structure Puts (m : Memory) (offset : Nat) (data : ByteArray) (m' : Memory) : Prop where
  size : m'.size = m.size
  outside (address : Nat) : address < offset ∨ offset + data.size ≤ address →
    m'.byteAt address = m.byteAt address
  inside : ∀ i < data.size, some (m'.byteAt (offset + i)) = data[i]?

/-- Output that is limited to a span that memory covers only replaces the first bytes of it. -/
theorem Covers.puts {length : Nat} (h : m.Covers offset length) (paged : m.Paged)
    (data : ByteArray) :
    m.Puts offset (data.extract 0 (min length data.size))
      (m.extendAndWrite offset data length true) := by
  have written : m.extendAndWrite offset data length true =
      m.write offset (data.extract 0 (min length data.size)) := by
    rw [extendAndWrite, if_pos rfl, show m.extend offset length = m from h]
  refine ⟨h.size_extendAndWrite data, fun address outside => ?_, fun i inside => ?_⟩
  · rw [written]
    exact byteAt_write_of_outside outside
  · rw [written, byteAt_write_of_inside paged inside, getElem?_pos _ i inside]
    rfl

/-- What is read does not depend on how far memory has grown. -/
theorem read_extend (m : Memory) (offset length start count : Nat) :
    (m.extend offset length).read start count = m.read start count := by
  simp only [read]
  generalize ByteArray.empty = acc
  induction start, count, acc using Memory.readPages.induct m with
  | case1 start acc =>
      unfold readPages
      rw [if_pos rfl, if_pos rfl]
  | case2 start count acc remaining within size piece ih =>
      unfold readPages
      rw [if_neg remaining, if_neg remaining, pages_extend]
      exact ih

end Memory
end EvmEngine
