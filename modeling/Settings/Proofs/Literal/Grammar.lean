import Settings.Proofs.Literal.Extension
import Settings.Proofs.Literal.Numerals

namespace Settings.Literal

open Text (Digits sign)

/-- The texts that are literals, each with its value: a string in quotes, an integer in the range of
sixty-four bits, the nearest float to a numeral with a point, and an array in braces with a literal
in every closed segment that is not blank. -/
inductive Denotes : List Char → Value → Prop
  | string (characters : List Char) :
      Denotes ('\'' :: (characters ++ ['\''])) (.string (String.ofList characters))
  | int {negative : Bool} {whole : List Char} {n : Int64} : Digits whole →
      n.toInt = (if negative then -(Nat.ofDigitChars 10 whole 0 : Int) else Nat.ofDigitChars 10 whole 0) →
      Denotes (sign negative ++ whole) (.int n)
  | float {negative : Bool} {whole fraction : List Char} {code : Nat} : Digits whole → Digits fraction →
      Format.binary64.Nearest (Nat.ofDigitChars 10 (whole ++ fraction) 0 / 10 ^ fraction.length) code →
      Denotes (sign negative ++ whole ++ '.' :: fraction) (.float (.ofCode negative code))
  | array {segments : List (List Char)} {items : List Value} : segments ≠ [] →
      (∀ segment ∈ segments, Closed segment) →
      List.Forall₂ Denotes ((segments.map Text.trim).filter (· ≠ [])) items →
      Denotes ('{' :: (['.'].intercalate segments ++ ['}'])) (.array items)

theorem read_quotes (characters : List Char) :
    read ('\'' :: (characters ++ ['\''])) = .ok (.string (String.ofList characters)) := by
  rw [read, Text.enclosed?_eq_some_iff.mpr rfl]

/-- A numeral is read as its number, and refused as a whole if it has none. -/
theorem read_numeral {numeral : Numeral} (wellFormed : numeral.WellFormed) :
    read numeral.spelling = match numeral.number? with
      | some n => .ok (.number n)
      | none => .error numeral.spelling := by
  have written := Numeral.ofText?_eq_some_iff.mpr ⟨rfl, wellFormed⟩
  have plain : Text.enclosed? '\'' '\'' numeral.spelling = none := by
    refine Option.eq_none_iff_forall_ne_some.mpr ?_
    intro characters quoted
    have quote : '\'' ∈ numeral.spelling := by
      rw [Text.eq_of_enclosed? quoted]
      exact List.mem_cons_self
    rw [Numeral.ofText?_eq_none quote (by decide)] at written
    cases written
  cases value : numeral.number? <;>
  · rw [read, plain, written]
    simp only [value]

theorem read_spelling {numeral : Numeral} {n : Number} (wellFormed : numeral.WellFormed)
    (value : numeral.number? = some n) : read numeral.spelling = .ok (.number n) := by
  rw [read_numeral wellFormed, value]

theorem denotes_spelling {numeral : Numeral} {n : Number} (wellFormed : numeral.WellFormed)
    (value : numeral.number? = some n) : Denotes numeral.spelling (.number n) := by
  obtain ⟨negative, whole, fraction⟩ := numeral
  rcases Numeral.number?_eq_some_iff.mp value with ⟨i, rfl, integral, rfl⟩ |
    ⟨fraction, code, rfl, nearest, rfl⟩
  · rw [Numeral.spelling, Numeral.unsigned, Option.elim_none, List.append_nil]
    exact .int wellFormed.whole integral
  · rw [Numeral.spelling, Numeral.unsigned, Option.elim_some, ← List.append_assoc]
    exact .float wellFormed.whole (wellFormed.fraction fraction rfl) nearest

theorem length_lt_of_element {interior element : List Char} {parts : List (List Char)}
    (divided : separate interior = some parts)
    (member : element ∈ (parts.map Text.trim).filter (· ≠ [])) :
    element.length < ('{' :: (interior ++ ['}'])).length := by
  obtain ⟨part, inside, rfl⟩ := List.mem_map.mp (List.mem_filter.mp member).1
  have short := length_le_of_mem_separate divided inside
  have trimmed := Text.length_trim_le part
  rw [List.length_cons, List.length_append]
  omega

theorem forall₂_of_mem {α β : Type} {R S : α → β → Prop} {xs : List α} {ys : List β}
    (all : List.Forall₂ R xs ys) (imp : ∀ x ∈ xs, ∀ y, R x y → S x y) : List.Forall₂ S xs ys := by
  have members : List.Forall₂ (fun x y => x ∈ xs ∧ R x y) xs ys :=
    (List.forall₂_and_left xs ys).mpr ⟨fun _ member => member, all⟩
  exact members.imp fun x y found => imp x found.1 y found.2

/-- Reading accepts the texts of the grammar, with the value that the grammar gives them. -/
theorem read_eq_ok_iff_denotes {text : List Char} {v : Value} :
    read text = .ok v ↔ Denotes text v := by
  -- By length, for the elements of an array are shorter than the array.
  induction size : text.length using Nat.strongRecOn generalizing text v with
  | ind n ih =>
    constructor
    · intro accepted
      rcases read_eq_ok_cases accepted with ⟨characters, rfl, rfl⟩ | ⟨numeral, number, written, value, rfl⟩ |
        ⟨interior, parts, items, rfl, divided, all, rfl⟩
      · exact .string characters
      · obtain ⟨rfl, wellFormed⟩ := Numeral.ofText?_eq_some_iff.mp written
        exact denotes_spelling wellFormed value
      · obtain ⟨nonempty, closed, shape⟩ := separate_eq_some_iff.mp divided
        have elements := forall₂_of_mem (readAll_eq_ok_iff.mp all) fun element member value read =>
          (ih element.length (size ▸ length_lt_of_element divided member) rfl).mp read
        rw [shape]
        exact .array nonempty closed elements
    · intro denotes
      cases denotes with
      | string characters => exact read_quotes characters
      | @int negative whole n digits integral =>
        have value : (Numeral.mk negative whole none).number? = some (.int n) :=
          Numeral.number?_eq_some_iff.mpr (Or.inl ⟨n, rfl, integral, rfl⟩)
        have read := read_spelling ⟨digits, by rintro _ ⟨⟩⟩ value
        rw [Numeral.spelling, Numeral.unsigned, Option.elim_none, List.append_nil] at read
        exact read
      | @float negative whole fraction code digits fractional nearest =>
        have value : (Numeral.mk negative whole (some fraction)).number? =
            some (.float (.ofCode negative code)) :=
          Numeral.number?_eq_some_iff.mpr (Or.inr ⟨fraction, code, rfl, nearest, rfl⟩)
        have read := read_spelling ⟨digits, by rintro _ ⟨⟩; exact fractional⟩ value
        rw [Numeral.spelling, Numeral.unsigned, Option.elim_some, ← List.append_assoc] at read
        exact read
      | @array segments items nonempty closed elements =>
        have divided := separate_eq_some_iff.mpr ⟨nonempty, closed, rfl⟩
        have all := forall₂_of_mem elements fun element member value denotes =>
          (ih element.length (size ▸ length_lt_of_element divided member) rfl).mpr denotes
        exact read_braces_eq_ok_iff.mpr ⟨segments, items, divided, readAll_eq_ok_iff.mpr all, rfl⟩

/-- The literals are the texts of the grammar, which gives each of them one value, and any other text
is an error in the first line. -/
theorem parseValue_iff_denotes (text : String) :
    (∀ v, parseValue text = .ok v ↔ Denotes (Text.trim text.toList) v) ∧
      (∀ v w, Denotes (Text.trim text.toList) v → Denotes (Text.trim text.toList) w → v = w) ∧
      ((∃ v, Denotes (Text.trim text.toList) v) ∨
        ∃ fragment, parseValue text = .error ⟨1, .invalidLiteral fragment⟩) := by
  have accepts (v : Value) : parseValue text = .ok v ↔ Denotes (Text.trim text.toList) v :=
    parseValue_eq_ok_iff.trans read_eq_ok_iff_denotes
  refine ⟨accepts, ?_, ?_⟩
  · intro v w first second
    have same := (accepts v).mpr first
    rw [(accepts w).mpr second] at same
    exact (Except.ok.inj same).symm
  · cases read : Literal.read (Text.trim text.toList) with
    | ok v => exact Or.inl ⟨v, read_eq_ok_iff_denotes.mp read⟩
    | error fragment =>
      refine Or.inr ⟨String.ofList fragment, ?_⟩
      rw [parseValue, Statement.literal, read]
      rfl

end Settings.Literal

namespace Settings.Statement

theorem literal_eq_ok_iff {text : List Char} {v : Value} :
    literal text = .ok v ↔ Literal.Denotes text v := by
  rw [← Literal.read_eq_ok_iff_denotes, literal]
  cases Literal.read text with
  | error fragment =>
    constructor <;>
    · intro same
      cases same
  | ok w =>
    constructor <;>
    · intro same
      cases same
      rfl

end Settings.Statement
