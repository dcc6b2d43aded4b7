import Settings.Proofs.Literal.Fragments
import Settings.Proofs.Literal.Printing
import Settings.Proofs.Target.Conversion
import Settings.Proofs.Value.Parts

namespace Settings.Literal

open Text (Blank Digits sign)

/-- A text writes an integer: an optional minus and one or more ASCII digits, as many as there may be and
with any zeros in front. -/
def Integer (text : List Char) (n : Int) : Prop :=
  ∃ negative whole, Digits whole ∧ text = sign negative ++ whole ∧
    n = if negative then -(Nat.ofDigitChars 10 whole 0 : Int) else Nat.ofDigitChars 10 whole 0

/-- The integers that have a value. -/
def InRange (n : Int) : Prop :=
  -2 ^ 63 ≤ n ∧ n ≤ 2 ^ 63 - 1

/-- The integers in the range, and the arrays in braces whose leaves are all of this kind. Between the dots
of an array there may be blanks around an item or nothing but blanks. -/
inductive Integers : List Char → Prop
  | integer {text : List Char} {n : Int} : Integer text n → InRange n → Integers text
  | array {slots : List (List Char)} : slots ≠ [] →
      (∀ slot ∈ slots, ¬ Blank slot → Integers (Text.trim slot)) →
      Integers ('{' :: (['.'].intercalate slots ++ ['}']))

/-- A text is a word, or an array that holds the word at the place to which indices lead, where every other
leaf is an integer in the range. Blank slots have no index. -/
inductive Holds (word : List Char) : List Nat → List Char → Prop
  | here : Holds word [] word
  | item {before after : List (List Char)} {slot : List Char} {indices : List Nat} :
      (∀ other ∈ before ++ after, ¬ Blank other → Integers (Text.trim other)) →
      Holds word indices (Text.trim slot) →
      Holds word (before.countP (fun other => ¬ Blank other) :: indices)
        ('{' :: (['.'].intercalate (before ++ slot :: after) ++ ['}']))

variable {text word slot : List Char} {slots before after : List (List Char)} {n : Int} {indices : List Nat}

/-- The characters of integers and of their arrays. -/
def isNumeric (c : Char) : Bool :=
  c.isDigit || ['-', '.', '{', '}'].contains c || Text.isBlank c

/-- What integers and their arrays have in common as texts. -/
structure Regular (text : List Char) : Prop where
  level : Level text
  characters : ∀ c ∈ text, isNumeric c = true
  trimmed : Text.trim text = text
  nonempty : text ≠ []

theorem Regular.not_mem (regular : Regular text) {c : Char} (other : isNumeric c = false) : c ∉ text := by
  intro member
  simp [regular.characters c member] at other

theorem Integer.characters (written : Integer text n) : ∀ c ∈ text, c = '-' ∨ c.isDigit = true := by
  obtain ⟨negative, whole, digits, rfl, -⟩ := written
  intro c member
  rcases List.mem_append.mp member with minus | digit
  · cases negative with
    | true => exact Or.inl (List.mem_singleton.mp minus)
    | false => cases minus
  · exact Or.inr (digits.numeric c digit)

theorem Integer.regular (written : Integer text n) : Regular text := by
  have visible : ∀ c ∈ text, Text.isBlank c = false := by
    intro c member
    rcases written.characters c member with rfl | digit
    · rfl
    · exact not_isBlank_of_isAlphanum (by simp [Char.isAlphanum, digit])
  have characters : ∀ c ∈ text, isNumeric c = true := by
    intro c member
    rcases written.characters c member with rfl | digit
    · rfl
    · simp [isNumeric, digit]
  obtain ⟨negative, whole, digits, rfl, -⟩ := written
  exact ⟨level_of_ordinary (ordinary_of_sign digits), characters,
    Text.trim_eq_self (fun c first => visible c (List.mem_of_mem_head? first))
      fun c last => visible c (List.mem_of_getLast? last),
    List.append_ne_nil_of_right_ne_nil _ digits.nonempty⟩

theorem level_of_trim (level : ¬ Blank slot → Level (Text.trim slot)) : Level slot := by
  by_cases blank : Blank slot
  · exact level_of_ordinary (ordinary_of_blank blank)
  · obtain ⟨before, after, blankBefore, blankAfter, division⟩ := Text.exists_trim slot
    rw [division]
    exact ((level_of_ordinary (ordinary_of_blank blankBefore)).append (level blank)).append
      (level_of_ordinary (ordinary_of_blank blankAfter))

theorem isNumeric_of_trim (characters : ¬ Blank slot → ∀ c ∈ Text.trim slot, isNumeric c = true) :
    ∀ c ∈ slot, isNumeric c = true := by
  have gap {c : Char} (blank : Text.isBlank c = true) : isNumeric c = true := by
    simp [isNumeric, blank]
  intro c member
  by_cases blank : Blank slot
  · exact gap (blank c member)
  · obtain ⟨before, after, blankBefore, blankAfter, division⟩ := Text.exists_trim slot
    rw [division, List.append_assoc, List.mem_append, List.mem_append] at member
    rcases member with front | inside | behind
    · exact gap (blankBefore c front)
    · exact characters blank c inside
    · exact gap (blankAfter c behind)

/-- An array in braces has in common with its items what they have in common. -/
theorem regular_array (each : ∀ slot ∈ slots, ¬ Blank slot → Regular (Text.trim slot)) :
    Regular ('{' :: (['.'].intercalate slots ++ ['}'])) where
  level := by
    have none : Level [] := level_of_ordinary nofun
    have dot (depth : Nat) : Nesting.through ⟨depth + 1, false⟩ ['.'] = some ⟨depth + 1, false⟩ := by
      simp [Nesting.through, Nesting.after]
    have level := level_braces none dot
      (fun slot member => level_of_trim fun visible => (each slot member visible).level) none
    rwa [List.nil_append, List.append_nil] at level
  characters := by
    intro c member
    simp only [List.mem_cons, List.mem_append, List.not_mem_nil, or_false, mem_intercalate_iff] at member
    rcases member with rfl | (⟨slot, inside, member⟩ | ⟨rfl, -⟩) | rfl
    · rfl
    · exact isNumeric_of_trim (fun visible => (each slot inside visible).characters) c member
    · rfl
    · rfl
  trimmed := by
    refine Text.trim_eq_self ?_ ?_
    · rintro _ ⟨⟩
      rfl
    · rw [← List.cons_append, List.getLast?_concat]
      rintro _ ⟨⟩
      rfl
  nonempty := List.cons_ne_nil _ _

theorem Integers.regular (integers : Integers text) : Regular text := by
  induction integers with
  | integer written _ => exact written.regular
  | array _ _ ih => exact regular_array ih

/-- Of the slots of an array one may be of another kind than the others. -/
theorem regular_slots (others : ∀ other ∈ before ++ after, ¬ Blank other → Integers (Text.trim other))
    (inner : Regular (Text.trim slot)) :
    ∀ part ∈ before ++ slot :: after, ¬ Blank part → Regular (Text.trim part) := by
  intro part member visible
  rcases List.mem_append.mp member with front | behind
  · exact (others part (List.mem_append_left _ front) visible).regular
  · rcases List.mem_cons.mp behind with rfl | behind
    · exact inner
    · exact (others part (List.mem_append_right _ behind) visible).regular

theorem Holds.regular (holds : Holds word indices text) (written : Integer word n) : Regular text := by
  induction holds with
  | here => exact written.regular
  | item others _ ih => exact regular_array (regular_slots others ih)

/-- The interior of an array is divided into the slots that it is made of. -/
theorem separate_of_regular (nonempty : slots ≠ [])
    (each : ∀ slot ∈ slots, ¬ Blank slot → Regular (Text.trim slot)) : separate (['.'].intercalate slots) = some slots := by
  refine separate_eq_some_iff.mpr ⟨nonempty, ?_, rfl⟩
  intro slot member
  exact (level_of_trim fun visible => (each slot member visible).level).closed

/-- The integers in the range are read exactly. -/
theorem Integer.exists_denotes (written : Integer text n) (range : InRange n) :
    ∃ i : Int64, i.toInt = n ∧ Denotes text (.int i) := by
  obtain ⟨negative, whole, digits, rfl, value⟩ := written
  have same : (Int64.ofInt n).toInt = n := Int64.toInt_ofInt_of_le range.1 (by have := range.2; omega)
  exact ⟨_, same, .int digits (same.trans value)⟩

theorem Integer.rejects (written : Integer text n) (outside : ¬ InRange n) : Rejects text text := by
  obtain ⟨negative, whole, digits, rfl, value⟩ := written
  have none : (Numeral.mk negative whole none).number? = none := by
    refine Option.eq_none_iff_forall_ne_some.mpr ?_
    intro m found
    rcases Numeral.number?_eq_some_iff.mp found with ⟨i, -, same, -⟩ | ⟨_, _, impossible, -⟩
    · have bounds : InRange i.toInt := ⟨i.le_toInt, by have := i.toInt_lt; omega⟩
      rw [same] at bounds
      exact outside (value ▸ bounds)
    · cases impossible
  have wellFormed : (Numeral.mk negative whole .none).WellFormed := ⟨digits, nofun⟩
  have read := read_numeral wellFormed
  rw [none, Numeral.spelling, Numeral.unsigned, Option.elim_none, List.append_nil] at read
  exact read_eq_error_iff.mp read

theorem exists_forall₂_denotes (each : ∀ slot ∈ slots, ¬ Blank slot → ∃ v, Denotes (Text.trim slot) v) :
    ∃ items, List.Forall₂ Denotes ((slots.map Text.trim).filter (· ≠ [])) items := by
  refine exists_forall₂_iff.mpr ?_
  intro element kept
  obtain ⟨inside, shown⟩ := List.mem_filter.mp kept
  obtain ⟨slot, member, rfl⟩ := List.mem_map.mp inside
  exact each slot member (mt (Text.trim_eq_nil_iff slot).mpr (of_decide_eq_true shown))

theorem Integers.exists_denotes (integers : Integers text) : ∃ v, Denotes text v := by
  induction integers with
  | integer written range =>
    obtain ⟨i, -, denotes⟩ := written.exists_denotes range
    exact ⟨_, denotes⟩
  | array nonempty each ih =>
    obtain ⟨items, all⟩ := exists_forall₂_denotes ih
    have divided := separate_of_regular nonempty fun slot member visible => (each slot member visible).regular
    exact ⟨_, .array nonempty (separate_eq_some_iff.mp divided).2.1 all⟩

theorem length_elements (slots : List (List Char)) :
    ((slots.map Text.trim).filter (· ≠ [])).length = slots.countP fun slot => ¬ Blank slot := by
  simp [List.filter_map, List.countP_eq_length_filter, Function.comp_def, Text.trim_eq_nil_iff]

/-- A word in the range is read exactly wherever it is held, and the indices lead to its value. -/
theorem Holds.exists_denotes (holds : Holds word indices text) (written : Integer word n) (range : InRange n) :
    ∃ (root : Value) (i : Int64), Denotes text root ∧ i.toInt = n ∧ root.Leads indices (.int i) := by
  induction holds with
  | here =>
    obtain ⟨i, same, denotes⟩ := written.exists_denotes range
    exact ⟨_, i, denotes, same, .here _⟩
  | @item before after slot indices others inner ih =>
    obtain ⟨v, i, denotes, same, leads⟩ := ih
    have visible : ¬ Blank slot := mt (Text.trim_eq_nil_iff slot).mpr (inner.regular written).nonempty
    obtain ⟨front, allFront⟩ := exists_forall₂_denotes fun other member shown =>
      (others other (List.mem_append_left _ member) shown).exists_denotes
    obtain ⟨back, allBack⟩ := exists_forall₂_denotes fun other member shown =>
      (others other (List.mem_append_right _ member) shown).exists_denotes
    have all : List.Forall₂ Denotes (((before ++ slot :: after).map Text.trim).filter (· ≠ []))
        (front ++ v :: back) := by
      rw [List.map_append, List.filter_append, elements_cons_of_not_blank visible]
      exact List.rel_append allFront (.cons denotes allBack)
    have divided := separate_of_regular (by simp) (regular_slots others (inner.regular written))
    obtain ⟨nonempty, closed, -⟩ := separate_eq_some_iff.mp divided
    refine ⟨_, i, .array nonempty closed all, same, .item ?_ leads⟩
    rw [← length_elements, allFront.length_eq]
    simp

/-- A word outside the range is what is wrong with every text that holds it. -/
theorem Holds.rejects (holds : Holds word indices text) (written : Integer word n) (outside : ¬ InRange n) :
    Rejects text word := by
  induction holds with
  | here => exact written.rejects outside
  | @item before after slot indices others inner ih =>
    have visible : ¬ Blank slot := mt (Text.trim_eq_nil_iff slot).mpr (inner.regular written).nonempty
    have divided := separate_of_regular (by simp) (regular_slots others (inner.regular written))
    refine .element divided ?_ visible ih
    intro earlier member
    by_cases blank : Blank earlier
    · exact Or.inl blank
    · exact Or.inr (others earlier (List.mem_append_left _ member) blank).exists_denotes

end Settings.Literal
