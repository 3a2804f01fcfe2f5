import EvmEngine.Json.Print
import Mathlib.Data.List.Nodup
import Mathlib.Tactic.IntervalCases

/-!
A value that is printed is read back, whatever follows it in the text: strings with whatever
characters they hold, integers that fit a machine integer, and arrays and objects that are not
nested too deeply.
-/

namespace EvmEngine
namespace Json

open Reader

/-- What follows a number does not belong to it. -/
def Ends (rest : List Char) : Prop :=
  ∀ c ∈ rest.head?, c.isDigit = false ∧ c ≠ '.' ∧ c ≠ 'e' ∧ c ≠ 'E'

section
variable {rest : List Char}

theorem digits_append {ds : List Char} (all : ∀ c ∈ ds, c.isDigit = true)
    (ends : ∀ c ∈ rest.head?, c.isDigit = false) : digits (ds ++ rest) = (ds, rest) := by
  have taken : rest.takeWhile Char.isDigit = [] := by
    cases rest with
    | nil => rfl
    | cons c cs => simp [ends c rfl]
  have dropped : rest.dropWhile Char.isDigit = rest := by
    cases rest with
    | nil => rfl
    | cons c cs => simp [ends c rfl]
  rw [digits, List.takeWhile_append_of_pos all, List.dropWhile_append_of_pos all, taken, dropped,
    List.append_nil]

theorem isDigit_of_mem_toDigits {n : Nat} {c : Char} (member : c ∈ Nat.toDigits 10 n) :
    c.isDigit = true :=
  Nat.isDigit_of_mem_toDigits (by decide) (by decide) member

theorem natOfDigits_toDigits (n : Nat) : natOfDigits (Nat.toDigits 10 n) = n :=
  Nat.ofDigitChars_toDigits (by decide) (by decide)

/-- A number that is not zero does not start with one. -/
theorem head?_toDigits {n : Nat} (positive : 0 < n) : (Nat.toDigits 10 n).head? ≠ some '0' := by
  induction n using Nat.strong_induction_on with
  | _ n ih =>
      obtain small | large := Nat.lt_or_ge n 10
      · rw [Nat.toDigits_of_lt_base small]
        interval_cases n <;> decide
      · rw [Nat.toDigits_of_base_le (by decide) large,
          List.head?_append_of_ne_nil _ Nat.toDigits_ne_nil]
        exact ih (n / 10) (Nat.div_lt_self positive (by decide)) (Nat.div_pos large (by decide))

theorem whole?_toDigits (n : Nat) (ends : ∀ c ∈ rest.head?, c.isDigit = false) :
    whole? (Nat.toDigits 10 n ++ rest) = some (Nat.toDigits 10 n, rest) := by
  rw [whole?, digits_append (fun _ => isDigit_of_mem_toDigits) ends]
  split
  · next none =>
      exact absurd (congrArg Prod.fst none) Nat.toDigits_ne_nil
  · next zero =>
      have leads := congrArg (List.head? ∘ Prod.fst) zero
      obtain rfl | positive := Nat.eq_zero_or_pos n
      · cases zero
      · exact absurd leads (head?_toDigits positive)
  · rfl

theorem fraction?_of_ends (ends : Ends rest) : fraction? rest = some ([], rest) := by
  cases rest with
  | nil => rfl
  | cons c cs =>
      obtain ⟨-, point, -, -⟩ := ends c rfl
      simp only [fraction?]
      split
      · next same => exact absurd (List.cons.inj same).1 point
      · rfl

theorem exponent?_of_ends (ends : Ends rest) : exponent? rest = some (none, rest) := by
  cases rest with
  | nil => rfl
  | cons c cs =>
      obtain ⟨-, -, small, large⟩ := ends c rfl
      simp [exponent?, small, large]

end

end Json

namespace Decimal

/-- As long as digits fit the significand, they only go there. -/
theorem takeWhole_eq {x : Decimal} {digits : List Nat}
    (fits : digits.foldl (10 * · + ·) x.significand < UInt64.size) :
    x.takeWhole digits = ⟨digits.foldl (10 * · + ·) x.significand, x.exponent, fits⟩ := by
  induction digits generalizing x with
  | nil => rfl
  | cons digit rest ih =>
      have grows (l : List Nat) (n : Nat) : n ≤ l.foldl (10 * · + ·) n := by
        induction l generalizing n with
        | nil => exact Nat.le_refl n
        | cons d l ih => exact Nat.le_trans (by omega) (ih (10 * n + d))
      have first : 10 * x.significand + digit < UInt64.size :=
        Nat.lt_of_le_of_lt (grows rest _) fits
      have pushed : x.push? digit = some ⟨10 * x.significand + digit, x.exponent, first⟩ :=
        dif_pos first
      simp only [takeWhole, pushed]
      exact ih fits

theorem roundToDouble_le (n : Nat) (small : n < UInt64.size) :
    roundToDouble n ≤ n + UInt64.size := by
  simp only [roundToDouble]
  generalize dropped : n.log2 + 1 - doubleBits = bits
  have few : bits ≤ 63 := by
    have log : n.log2 ≤ 63 := by
      obtain rfl | other := Nat.eq_zero_or_pos n
      · decide
      · exact Nat.lt_succ_iff.mp ((Nat.log2_lt (Nat.ne_of_gt other)).mpr small)
    rw [← dropped, doubleBits]
    omega
  have unit : Nat.pow 2 bits ≤ UInt64.size :=
    Nat.pow_le_pow_right (by decide) (Nat.le_succ_of_le few)
  have below := Nat.div_mul_le_self n (Nat.pow 2 bits)
  split
  · rw [Nat.add_one_mul]
    omega
  · omega

/-- Every machine integer is in the range of doubles. -/
theorem isFinite_of_whole (n : Nat) (fits : n < UInt64.size) :
    (⟨n, 0, fits⟩ : Decimal).isFinite = true := by
  have unit : roundToDouble (Nat.pow 10 (Int.toNat 0)) = 1 := by decide
  have rounded := roundToDouble_le n fits
  have range : 2 * UInt64.size < doubleLimit := by decide +kernel
  simp only [isFinite, unit, Nat.mul_one]
  rw [if_neg (by decide : ¬ maxPower < 0)]
  split
  · rfl
  · simp only [decide_eq_true_eq]
    omega

end Decimal

namespace Json

open Reader

section
variable {n : Nat} {rest : List Char}

theorem isFinite_toDigits (fits : n < UInt64.size) :
    ((Decimal.zero.takeWhole ((Nat.toDigits 10 n).map digitValue)).scale 0).isFinite = true := by
  have value : ((Nat.toDigits 10 n).map digitValue).foldl (10 * · + ·)
      Decimal.zero.significand = n := by
    rw [List.foldl_map]
    exact natOfDigits_toDigits n
  rw [Decimal.takeWhole_eq (value.symm ▸ fits)]
  simp only [value]
  exact Decimal.isFinite_of_whole n fits

theorem number?_neg (fits : n < UInt64.size) (ends : Ends rest) :
    number? ('-' :: (Nat.toDigits 10 n ++ rest)) = some (integer true n, rest) := by
  have whole := whole?_toDigits n fun c first => (ends c first).1
  simp [number?, whole, fraction?_of_ends ends, exponent?_of_ends ends, Decimal.takeFraction,
    isFinite_toDigits fits, natOfDigits_toDigits]

theorem exists_toDigits (n : Nat) : ∃ c ds, Nat.toDigits 10 n = c :: ds ∧ c.isDigit = true := by
  obtain ⟨c, ds, shape⟩ := List.exists_cons_of_ne_nil (@Nat.toDigits_ne_nil n 10)
  exact ⟨c, ds, shape, isDigit_of_mem_toDigits (shape ▸ List.mem_cons_self)⟩

theorem number?_toDigits (fits : n < UInt64.size) (ends : Ends rest) :
    number? (Nat.toDigits 10 n ++ rest) = some (integer false n, rest) := by
  have whole := whole?_toDigits n fun c first => (ends c first).1
  obtain ⟨c, ds, shape, digit⟩ := exists_toDigits n
  have unsigned : c ≠ '-' := by
    rintro rfl
    exact absurd digit (by decide)
  have finite := isFinite_toDigits fits
  have value := natOfDigits_toDigits n
  simp only [shape, List.cons_append, List.map_cons] at whole finite value ⊢
  simp [number?, unsigned, whole, fraction?_of_ends ends, exponent?_of_ends ends,
    Decimal.takeFraction, finite, value]

end

section
variable {rest : List Char}

/-- A character that is neither blank nor closes an array or an object. -/
def Leads (c : Char) : Prop :=
  c ∉ [' ', '\n', '\t', '\r', ']', '\x7d']

instance : DecidablePred Leads :=
  fun c => inferInstanceAs (Decidable (c ∉ _))

theorem skipBlank_of_leads {c : Char} (leads : Leads c) (cs : List Char) :
    skipBlank (c :: cs) = c :: cs := by
  simp only [Leads, List.mem_cons, not_or] at leads
  simp [skipBlank, leads]

theorem leads_of_number {c : Char} (number : c.isDigit = true ∨ c = '-') : Leads c := by
  intro listed
  simp only [List.mem_cons, List.not_mem_nil, or_false] at listed
  obtain rfl | rfl | rfl | rfl | rfl | rfl := listed <;> exact absurd number (by decide)

theorem value?_number {c : Char} (number : c.isDigit = true ∨ c = '-') (depth : Nat)
    (cs : List Char) : value? depth (c :: cs) = number? (c :: cs) := by
  have other (c' : Char) (no : ¬ (c'.isDigit = true ∨ c' = '-')) : c ≠ c' := by
    rintro rfl
    exact no number
  cases depth <;>
    simp [value?, skipBlank_of_leads (leads_of_number number), other '"' (by decide),
      other '[' (by decide), other '\x7b' (by decide), other 'n' (by decide), other 't' (by decide),
      other 'f' (by decide)]

theorem value?_int {n : Int} (least : Int64.minValue.toInt ≤ n) (fits : n < UInt64.size)
    (ends : Ends rest) (depth : Nat) :
    value? depth ((int n).chars ++ rest) = some (int n, rest) := by
  have size : n.natAbs < UInt64.size := by
    have least : (-(UInt64.size : Int)) < Int64.minValue.toInt := by decide
    omega
  obtain negative | positive := Int.lt_or_le n 0
  · have same : -(n.natAbs : Int) = n := by omega
    have reads : integer true n.natAbs = int n := by
      rw [integer, if_pos rfl, same, if_neg (by omega)]
    rw [chars, if_pos negative, List.cons_append, value?_number (.inr rfl), number?_neg size ends,
      reads]
  · have same : (n.natAbs : Int) = n := by omega
    have reads : integer false n.natAbs = int n := by
      rw [integer, if_neg Bool.false_ne_true, if_pos size, same]
    obtain ⟨c, ds, shape, digit⟩ := exists_toDigits n.natAbs
    have read := number?_toDigits size ends
    rw [chars, if_neg (Int.not_lt.mpr positive)]
    rw [shape, List.cons_append] at read ⊢
    rw [value?_number (.inl digit), read, reads]

theorem value?_real (ends : Ends rest) (depth : Nat) :
    value? depth (real.chars ++ rest) = some (real, rest) := by
  have whole : whole? ('0' :: '.' :: '0' :: rest) = some (['0'], '.' :: '0' :: rest) := by
    simp [whole?, digits]
  have fraction : fraction? ('.' :: '0' :: rest) = some (['0'], rest) := by
    have zero := @digits_append rest ['0'] (List.forall_mem_singleton.mpr rfl) fun c first =>
      (ends c first).1
    simp only [List.cons_append, List.nil_append] at zero
    simp [fraction?, zero]
  have finite : (((Decimal.zero.takeWhole [0]).takeFraction [0]).scale 0).isFinite = true := by
    decide
  rw [chars, List.cons_append, value?_number (.inl rfl)]
  simp [number?, whole, fraction, exponent?_of_ends ends, digitValue, finite]

end

section
variable {fuel : Nat} {cs read : List Char}

theorem codePoint?_control {n : Nat} (control : n < 0x20) :
    codePoint? ('0' :: '0' :: Nat.digitChar (n / 16) :: Nat.digitChar (n % 16) :: cs) =
      some (Char.ofNat n, cs) := by
  interval_cases n <;> rfl

/-- Every character of a string is read back as it is. -/
theorem string?_escape (c : Char) :
    string? (fuel + 1) (escape c ++ cs) read = string? fuel cs (c :: read) := by
  have back : Char.ofNat c.toNat = c := Char.ofNat_toNat c
  generalize code : c.toNat = n at back
  subst back
  unfold escape
  rw [code]
  split
  all_goals try rfl
  next _ _ _ _ _ _ quote slash =>
    split
    · next control => simp [string?, escape?, codePoint?_control control]
    · next plain =>
        have unquoted : Char.ofNat n ≠ '"' := fun same =>
          quote (code ▸ congrArg Char.toNat same)
        have unescaped : Char.ofNat n ≠ '\\' := fun same =>
          slash (code ▸ congrArg Char.toNat same)
        simp [string?, code, plain]

theorem escape_ne_nil (c : Char) : escape c ≠ [] := by
  unfold escape
  split
  case h_8 => split <;> exact List.cons_ne_nil _ _
  all_goals exact List.cons_ne_nil _ _

theorem string?_flatMap (s : List Char) (enough : (s.flatMap escape).length < fuel) :
    string? fuel (s.flatMap escape ++ '"' :: cs) read =
      some (String.ofList (read.reverse ++ s), cs) := by
  induction s generalizing fuel read with
  | nil =>
      cases fuel with
      | zero => exact absurd enough (Nat.not_lt_zero _)
      | succ fuel => simp [string?]
  | cons c s ih =>
      have longer : 0 < (escape c).length := List.length_pos_of_ne_nil (escape_ne_nil c)
      rw [List.flatMap_cons, List.length_append] at enough
      cases fuel with
      | zero => exact absurd enough (Nat.not_lt_zero _)
      | succ fuel =>
          rw [List.flatMap_cons, List.append_assoc, string?_escape, ih (by omega),
            List.reverse_cons, List.append_assoc, List.singleton_append]

theorem quoted_append (s : String) (cs : List Char) :
    quoted s ++ cs = '"' :: (s.toList.flatMap escape ++ '"' :: cs) := by
  simp [quoted]

/-- A string is read back after its opening quotation mark. -/
theorem string?_quoted (s : String) :
    string? (s.toList.flatMap escape ++ '"' :: cs).length (s.toList.flatMap escape ++ '"' :: cs)
      [] = some (s, cs) := by
  rw [string?_flatMap s.toList (by simp), List.reverse_nil, List.nil_append, String.ofList_toList]

theorem value?_str (s : String) (depth : Nat) :
    value? depth ((str s).chars ++ cs) = some (str s, cs) := by
  have read := @string?_quoted cs s
  rw [chars, quoted_append]
  generalize s.toList.flatMap escape ++ '"' :: cs = text at read ⊢
  cases depth <;> simp [value?, skipBlank, read]

end

/-- Values that are read back when they are printed, where arrays and objects may be nested so deep:
integers are machine integers, and an object holds a key once. -/
inductive Printable : Nat → Json → Prop
  | null (depth : Nat) : Printable depth null
  | bool (depth : Nat) (b : Bool) : Printable depth (bool b)
  | int (depth : Nat) (n : Int) (least : Int64.minValue.toInt ≤ n) (fits : n < UInt64.size) :
      Printable depth (int n)
  | real (depth : Nat) : Printable depth real
  | str (depth : Nat) (s : String) : Printable depth (str s)
  | arr (depth : Nat) (items : List Json) (each : ∀ item ∈ items, Printable depth item) :
      Printable (depth + 1) (arr items)
  | obj (depth : Nat) (members : List (String × Json))
      (each : ∀ member ∈ members, Printable depth member.2)
      (apart : (members.map Prod.fst).Nodup) : Printable (depth + 1) (obj members)

theorem Printable.nat {n : Nat} (depth : Nat) (fits : n < UInt64.size) :
    Printable depth (.int n) := by
  have least : Int64.minValue.toInt ≤ 0 := by decide
  exact .int depth n (least.trans n.cast_nonneg) (Int.ofNat_lt.mpr fits)

theorem exists_chars (value : Json) : ∃ c cs, value.chars = c :: cs ∧ Leads c := by
  have leads {c : Char} {cs : List Char} (first : Leads c) :
      ∃ c' cs', c :: cs = c' :: cs' ∧ Leads c' := ⟨c, cs, rfl, first⟩
  cases value with
  | null => exact leads (by decide)
  | bool b => cases b <;> exact leads (by decide)
  | int n =>
      rw [chars]
      split
      · exact leads (by decide)
      · obtain ⟨c, ds, shape, digit⟩ := exists_toDigits n.natAbs
        rw [shape]
        exact leads (leads_of_number (.inl digit))
  | real => exact leads (by decide)
  | str s => exact leads (by decide)
  | arr items => exact leads (by decide)
  | obj members => exact leads (by decide)

/-- A reader that reads what is printed of a value, whatever follows. -/
def Reads (reader : List Char → Option (Json × List Char)) (value : Json) : Prop :=
  ∀ rest, Ends rest → reader (value.chars ++ rest) = some (value, rest)

section
variable {reader : List Char → Option (Json × List Char)} {fuel : Nat} {rest : List Char}

theorem ends_cons (c : Char) (cs : List Char)
    (other : c.isDigit = false ∧ c ≠ '.' ∧ c ≠ 'e' ∧ c ≠ 'E') : Ends (c :: cs) := by
  rintro _ ⟨⟩
  exact other

theorem length_le_itemChars (items : List Json) : items.length ≤ (itemChars items).length + 1 := by
  induction items with
  | nil => exact Nat.zero_le _
  | cons item more ih =>
      cases more with
      | nil => exact Nat.le_add_left _ _
      | cons next more =>
          simp only [itemChars, List.length_cons, List.length_append] at ih ⊢
          omega

theorem length_le_memberChars (members : List (String × Json)) :
    members.length ≤ (memberChars members).length + 1 := by
  induction members with
  | nil => exact Nat.zero_le _
  | cons member more ih =>
      cases more with
      | nil => exact Nat.le_add_left _ _
      | cons next more =>
          simp only [memberChars, List.length_cons, List.length_append] at ih ⊢
          omega

/-- The items of an array that is not empty are read back one by one. -/
theorem items?_itemChars {items : List Json} (each : ∀ item ∈ items, Reads reader item)
    (other : items ≠ []) (enough : items.length ≤ fuel) (read : List Json) (rest : List Char) :
    items? reader fuel (itemChars items ++ ']' :: rest) read =
      some (arr (read.reverse ++ items), rest) := by
  induction items generalizing fuel read with
  | nil => exact absurd rfl other
  | cons item more ih =>
      have first := each item List.mem_cons_self
      cases fuel with
      | zero => exact absurd enough (Nat.not_succ_le_zero _)
      | succ fuel =>
          cases more with
          | nil => simp [itemChars, items?, first _ (ends_cons ']' rest (by decide)), skipBlank]
          | cons next more =>
              have later := ih (fun item member => each item (List.mem_cons_of_mem _ member))
                (List.cons_ne_nil _ _) (Nat.le_of_succ_le_succ enough) (item :: read)
              simp [itemChars, items?, first _ (ends_cons ',' _ (by decide)), skipBlank, later]

theorem insertMember_of_not_mem {members : List (String × Json)} {key : String}
    (fresh : key ∉ members.map Prod.fst) (value : Json) :
    insertMember members key value = members ++ [(key, value)] := by
  rw [insertMember, List.filter_eq_self.mpr]
  intro member listed
  simp only [bne_iff_ne]
  rintro rfl
  exact fresh (List.mem_map_of_mem listed)

/-- A member is read back and added to those before it. -/
theorem members?_member {value : Json} (reads : Reads reader value) (key : String)
    (read : List (String × Json)) (rest : List Char) :
    members? reader (fuel + 1) (quoted key ++ ':' :: (value.chars ++ ',' :: rest)) read =
        members? reader fuel rest (insertMember read key value) ∧
      members? reader (fuel + 1) (quoted key ++ ':' :: (value.chars ++ '\x7d' :: rest)) read =
        some (obj (insertMember read key value), rest) := by
  have named (cs : List Char) := @string?_quoted cs key
  simp only [quoted_append]
  constructor
  · have named := named (':' :: (value.chars ++ ',' :: rest))
    generalize key.toList.flatMap escape ++ '"' :: ':' :: (value.chars ++ ',' :: rest) = text
      at named ⊢
    simp [members?, skipBlank, named, reads _ (ends_cons ',' rest (by decide))]
  · have named := named (':' :: (value.chars ++ '\x7d' :: rest))
    generalize key.toList.flatMap escape ++ '"' :: ':' :: (value.chars ++ '\x7d' :: rest) = text
      at named ⊢
    simp [members?, skipBlank, named, reads _ (ends_cons '\x7d' rest (by decide))]

/-- The members of an object that is not empty are read back one by one. -/
theorem members?_memberChars {members : List (String × Json)} (read : List (String × Json))
    (rest : List Char) (each : ∀ member ∈ members, Reads reader member.2)
    (apart : ((read ++ members).map Prod.fst).Nodup)
    (other : members ≠ []) (enough : members.length ≤ fuel) :
    members? reader fuel (memberChars members ++ '\x7d' :: rest) read =
      some (obj (read ++ members), rest) := by
  induction members generalizing fuel read with
  | nil => exact absurd rfl other
  | cons member more ih =>
      obtain ⟨key, value⟩ := member
      have first : Reads reader value := each _ List.mem_cons_self
      have fresh : key ∉ read.map Prod.fst := by
        rw [List.map_append, List.map_cons] at apart
        intro before
        exact List.disjoint_of_nodup_append apart before List.mem_cons_self
      have inserted := insertMember_of_not_mem fresh value
      cases fuel with
      | zero => exact absurd enough (Nat.not_succ_le_zero _)
      | succ fuel =>
          cases more with
          | nil =>
              simp [memberChars, (members?_member first key read rest).2, inserted]
          | cons next more =>
              have later := @ih fuel (read ++ [(key, value)])
                (fun item member => each item (List.mem_cons_of_mem _ member))
                (by rwa [List.append_assoc]) (List.cons_ne_nil _ _) (Nat.le_of_succ_le_succ enough)
              simp [memberChars, (members?_member first key read _).1, inserted, later]

end

theorem value?_items {c : Char} (leads : Leads c) (depth : Nat) (cs : List Char) :
    value? (depth + 1) ('[' :: c :: cs) = items? (value? depth) (c :: cs).length (c :: cs) [] := by
  have other : c ≠ ']' := by
    rintro rfl
    exact absurd leads (by decide)
  have opens := skipBlank_of_leads (by decide : Leads '[') (c :: cs)
  simp [value?, opens, skipBlank_of_leads leads, other]

theorem value?_members {c : Char} (leads : Leads c) (depth : Nat) (cs : List Char) :
    value? (depth + 1) ('\x7b' :: c :: cs) =
      members? (value? depth) (c :: cs).length (c :: cs) [] := by
  have other : c ≠ '\x7d' := by
    rintro rfl
    exact absurd leads (by decide)
  have opens := skipBlank_of_leads (by decide : Leads '\x7b') (c :: cs)
  simp [value?, opens, skipBlank_of_leads leads, other]

theorem leads_itemChars (item : Json) (more : List Json) (rest : List Char) :
    ∃ c cs, itemChars (item :: more) ++ rest = c :: cs ∧ Leads c := by
  obtain ⟨c, cs, shape, leads⟩ := exists_chars item
  cases more with
  | nil => exact ⟨c, cs ++ rest, by rw [itemChars, shape, List.cons_append], leads⟩
  | cons next more =>
      exact ⟨c, cs ++ ',' :: itemChars (next :: more) ++ rest, by simp [itemChars, shape], leads⟩

theorem leads_memberChars (member : String × Json) (more : List (String × Json))
    (rest : List Char) : ∃ c cs, memberChars (member :: more) ++ rest = c :: cs ∧ Leads c := by
  cases more with
  | nil => exact ⟨'"', _, rfl, by decide⟩
  | cons next more => exact ⟨'"', _, rfl, by decide⟩

theorem reads_arr {items : List Json} {depth : Nat}
    (each : ∀ item ∈ items, Reads (value? depth) item) :
    Reads (value? (depth + 1)) (arr items) := by
  intro rest _
  rw [chars, List.cons_append, List.cons_append, List.append_assoc, List.singleton_append]
  cases items with
  | nil => simp [itemChars, value?, skipBlank]
  | cons item more =>
      have enough : (item :: more).length ≤ (itemChars (item :: more) ++ ']' :: rest).length := by
        have shorter := length_le_itemChars (item :: more)
        simp only [List.length_append, List.length_cons] at shorter ⊢
        omega
      have read := items?_itemChars each (List.cons_ne_nil _ _) enough [] rest
      obtain ⟨c, cs, shape, leads⟩ := leads_itemChars item more (']' :: rest)
      rw [shape] at read ⊢
      exact (value?_items leads depth cs).trans read

theorem reads_obj {members : List (String × Json)} {depth : Nat}
    (each : ∀ member ∈ members, Reads (value? depth) member.2)
    (apart : (members.map Prod.fst).Nodup) : Reads (value? (depth + 1)) (obj members) := by
  intro rest _
  rw [chars, List.cons_append, List.cons_append, List.append_assoc, List.singleton_append]
  cases members with
  | nil => simp [memberChars, value?, skipBlank]
  | cons member more =>
      have enough : (member :: more).length ≤
          (memberChars (member :: more) ++ '\x7d' :: rest).length := by
        have shorter := length_le_memberChars (member :: more)
        simp only [List.length_append, List.length_cons] at shorter ⊢
        omega
      have read := members?_memberChars [] rest each apart (List.cons_ne_nil _ _) enough
      obtain ⟨c, cs, shape, leads⟩ := leads_memberChars member more ('\x7d' :: rest)
      rw [shape] at read ⊢
      exact (value?_members leads depth cs).trans read

/-- Whatever follows it, a value is read back from what is printed of it. -/
theorem Printable.reads {depth : Nat} {value : Json} (h : Printable depth value) :
    Reads (value? depth) value := by
  induction h with
  | null depth =>
      intro rest _
      cases depth <;> simp [chars, value?, skipBlank, expect?, List.isPrefixOf]
  | bool depth b =>
      intro rest _
      cases b <;> cases depth <;> simp [chars, value?, skipBlank, expect?, List.isPrefixOf]
  | int depth n least fits => exact fun rest ends => value?_int least fits ends depth
  | real depth => exact fun rest ends => value?_real ends depth
  | str depth s => exact fun rest _ => value?_str s depth
  | arr depth items _ each => exact reads_arr each
  | obj depth members _ apart each => exact reads_obj each apart

/-- A value is read back from the text that is printed of it. -/
theorem Printable.parse?_print {value : Json} (h : Printable maxDepth value) :
    parse? value.print = some value := by
  have read := h.reads [] fun c first => by cases first
  rw [List.append_nil] at read
  simp only [parse?, print, String.toList_ofList, read]
  rfl

end Json
end EvmEngine
