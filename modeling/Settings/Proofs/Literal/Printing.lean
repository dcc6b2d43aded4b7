import Settings.Json.Text
import Settings.Proofs.Literal.Ends
import Settings.Proofs.Literal.Parts

namespace Settings

namespace Value

mutual

/-- A value as a literal: a string in quotes, an integer in decimal digits, and the items of an array in
braces with dots between them. A float is written as in JSON, which need not be a literal. -/
def print : Value → List Char
  | string s => '\'' :: (s.toList ++ ['\''])
  | number n => Json.number n
  | array items => '{' :: ' ' :: ([' ', '.', ' '].intercalate (printItems items) ++ [' ', '}'])

def printItems : List Value → List (List Char)
  | [] => []
  | v :: rest => print v :: printItems rest

end

theorem printItems_eq_map (items : List Value) : printItems items = items.map print := by
  induction items with
  | nil => rfl
  | cons v rest ih => rw [printItems, ih, List.map_cons]

/-- A value that can be printed as an element of an array: integers, and strings without the characters
that would end them or divide the array. -/
inductive Element : Value → Prop
  | int (n : Int64) : Element (.int n)
  | string {s : String} : '\'' ∉ s.toList → '.' ∉ s.toList → Element (.string s)
  | array {items : List Value} : (∀ item ∈ items, Element item) → Element (.array items)

/-- A value that a literal can be printed for. A string that is no element may hold any characters. -/
inductive Expressible : Value → Prop
  | string (s : String) : Expressible (.string s)
  | element {v : Value} : v.Element → Expressible v

end Value

namespace Literal

open Text (Digits sign)
open Value (Element Expressible)

namespace Nesting

/-- Parts that leave the place as it is can be joined. -/
theorem through_intercalate {place : Nesting} {separator : List Char} {parts : List (List Char)}
    (between : place.through separator = some place) (each : ∀ part ∈ parts, place.through part = some place) :
    place.through (separator.intercalate parts) = some place := by
  induction parts with
  | nil => rfl
  | cons first rest ih =>
    have here := each first List.mem_cons_self
    have later := ih fun part member => each part (List.mem_cons_of_mem first member)
    cases rest with
    | nil => rwa [List.intercalate_singleton]
    | cons second rest =>
      rw [List.intercalate_cons_cons, List.append_assoc, through_append, here, Option.bind_some,
        through_append, between, Option.bind_some, later]

/-- Between quotes only another quote counts, and a dot where no brace is open. -/
theorem through_quoted (depth : Nat) {text : List Char} (unquoted : '\'' ∉ text) (undotted : '.' ∉ text) :
    through ⟨depth, true⟩ text = some ⟨depth, true⟩ := by
  induction text with
  | nil => rfl
  | cons c rest ih =>
    obtain ⟨notQuote, quoteLater⟩ := not_or.mp (mt List.mem_cons.mpr unquoted)
    obtain ⟨notDot, dotLater⟩ := not_or.mp (mt List.mem_cons.mpr undotted)
    have stays : after ⟨depth, true⟩ c = some ⟨depth, true⟩ := by
      simp [after, Ne.symm notQuote]
    rw [through, if_neg (fun dot => notDot dot.1.symm), stays]
    exact ih quoteLater dotLater

end Nesting

theorem ofInt_eq_sign (n : Int) : Text.ofInt n = sign (n < 0) ++ Text.ofNat n.natAbs := by
  rw [Text.ofInt]
  by_cases negative : n < 0
  · simp [negative, sign]
  · simp [negative, sign]

/-- At every depth a text ends at the place where it starts, with all its braces closed and its quotes
over. -/
def Level (text : List Char) : Prop :=
  ∀ depth, Nesting.through ⟨depth, false⟩ text = some ⟨depth, false⟩

theorem Level.closed {text : List Char} (level : Level text) : Closed text :=
  (closed_iff_through text).mpr ⟨false, level 0⟩

theorem Level.append {first second : List Char} (front : Level first) (back : Level second) :
    Level (first ++ second) := by
  intro depth
  rw [Nesting.through_append, front depth, Option.bind_some, back depth]

theorem level_of_ordinary {text : List Char} (ordinary : ∀ c ∈ text, c ≠ '\'' ∧ c ≠ '{' ∧ c ≠ '}' ∧ c ≠ '.') :
    Level text :=
  fun _ => Nesting.through_of_ordinary _ ordinary

/-- Inside braces dots divide nothing. -/
theorem level_braces {parts : List (List Char)} {before separator after : List Char} (front : Level before)
    (between : ∀ depth, Nesting.through ⟨depth + 1, false⟩ separator = some ⟨depth + 1, false⟩)
    (each : ∀ part ∈ parts, Level part) (back : Level after) :
    Level ('{' :: (before ++ separator.intercalate parts ++ after ++ ['}'])) := by
  intro depth
  have inside := Nesting.through_intercalate (between depth) fun part member => each part member (depth + 1)
  have opening : Nesting.through ⟨depth, false⟩ ['{'] = some ⟨depth + 1, false⟩ := by
    simp [Nesting.through, Nesting.after]
  have closing : Nesting.through ⟨depth + 1, false⟩ ['}'] = some ⟨depth, false⟩ := by
    simp [Nesting.through, Nesting.after]
  have shape : '{' :: (before ++ separator.intercalate parts ++ after ++ ['}']) =
      ['{'] ++ before ++ separator.intercalate parts ++ after ++ ['}'] := rfl
  rw [shape]
  simp only [Nesting.through_append, opening, front (depth + 1), inside, back (depth + 1), closing,
    Option.bind_some]

theorem level_print {v : Value} (element : v.Element) : Level v.print := by
  induction element with
  | int n =>
    rw [Value.int, Value.print, Json.number, ofInt_eq_sign]
    exact level_of_ordinary (ordinary_of_sign (Text.digits_ofNat _))
  | @string s unquoted undotted =>
    intro depth
    rw [Value.print, Nesting.through, if_neg (by simp)]
    simp only [Nesting.after, if_true, Option.bind_some, Bool.not_false, Nesting.through_concat,
      Nesting.through_quoted depth unquoted undotted]
    rfl
  | @array items _ ih =>
    have gap : Level [' '] := level_of_ordinary (ordinary_of_blank (by decide))
    have separator (depth : Nat) :
        Nesting.through ⟨depth + 1, false⟩ [' ', '.', ' '] = some ⟨depth + 1, false⟩ := by
      simp [Nesting.through, Nesting.after]
    have each : ∀ part ∈ items.map Value.print, Level part := by
      intro part member
      obtain ⟨item, inside, rfl⟩ := List.mem_map.mp member
      exact ih item inside
    have level := level_braces gap separator each gap
    rw [List.append_assoc, List.append_assoc] at level
    rw [Value.print, Value.printItems_eq_map]
    exact level

theorem intercalate_surround (before after separator : List Char) {parts : List (List Char)}
    (nonempty : parts ≠ []) :
    separator.intercalate (parts.map fun part => before ++ part ++ after) =
      before ++ (after ++ separator ++ before).intercalate parts ++ after := by
  induction parts with
  | nil => exact absurd rfl nonempty
  | cons first rest ih =>
    cases rest with
    | nil => rw [List.map_singleton, List.intercalate_singleton, List.intercalate_singleton]
    | cons second rest =>
      have later := ih (List.cons_ne_nil second rest)
      rw [List.map_cons] at later
      rw [List.map_cons, List.map_cons, List.intercalate_cons_cons, later, List.intercalate_cons_cons]
      simp only [List.append_assoc]

/-- Closed literals with dots between them are the elements of an array in braces, also with blanks
around each of them. -/
theorem denotes_array {parts : List (List Char)} {items : List Value}
    (all : List.Forall₂ Denotes parts items) (closed : ∀ part ∈ parts, Closed part) :
    Denotes ('{' :: ' ' :: ([' ', '.', ' '].intercalate parts ++ [' ', '}'])) (.array items) := by
  by_cases nonempty : parts = []
  · subst nonempty
    cases all
    -- There is no element, but one segment: the two blanks between the braces.
    have gap : ∀ segment ∈ [[' ', ' ']], Closed segment := by
      intro segment member
      rw [List.mem_singleton.mp member]
      exact closed_of_blank (by decide)
    exact .array (List.cons_ne_nil _ _) gap .nil
  · have blank : Text.Blank [' '] := by decide
    have slots : ∀ segment ∈ parts.map fun part => [' '] ++ part ++ [' '], Closed segment := by
      intro segment member
      obtain ⟨part, inside, rfl⟩ := List.mem_map.mp member
      exact (closed_surrounded blank blank).mpr (closed part inside)
    have bare : ∀ part ∈ parts, Text.trim part = part ∧ part ≠ [] := by
      intro part member
      obtain ⟨v, -, denotes⟩ := exists_right_of_mem all member
      exact ⟨denotes.trim_eq, denotes.ne_nil⟩
    have trimmed : (parts.map fun part => [' '] ++ part ++ [' ']).map Text.trim = parts := by
      rw [List.map_map]
      refine (List.map_congr_left ?_).trans (List.map_id parts)
      intro part member
      rw [Function.comp_apply, Text.trim_surrounded blank blank, (bare part member).1, id_eq]
    have kept : parts.filter (· ≠ []) = parts :=
      List.filter_eq_self.mpr fun part member => decide_eq_true (bare part member).2
    have array := Denotes.array (mt List.map_eq_nil_iff.mp nonempty) slots (by rwa [trimmed, kept])
    rw [intercalate_surround _ _ _ nonempty, List.append_assoc, List.append_assoc] at array
    exact array

theorem denotes_quotes (s : String) : Denotes (Value.string s).print (.string s) := by
  have denotes := Denotes.string s.toList
  rw [String.ofList_toList] at denotes
  rw [Value.print]
  exact denotes

/-- A printed element is a literal of the element. -/
theorem denotes_print {v : Value} (element : v.Element) : Denotes v.print v := by
  induction element with
  | int n =>
    rw [Value.int, Value.print, Json.number, ofInt_eq_sign]
    refine .int (Text.digits_ofNat _) ?_
    rw [Text.ofDigitChars_ofNat]
    by_cases negative : n.toInt < 0
    · rw [decide_eq_true negative, if_pos rfl]
      omega
    · rw [decide_eq_false negative, if_neg Bool.false_ne_true]
      omega
  | @string s unquoted undotted => exact denotes_quotes s
  | @array items elements ih =>
    have all : List.Forall₂ Denotes (items.map Value.print) items := by
      rw [List.forall₂_map_left_iff]
      exact List.forall₂_same.mpr ih
    have closed : ∀ part ∈ items.map Value.print, Closed part := by
      intro part member
      obtain ⟨item, inside, rfl⟩ := List.mem_map.mp member
      exact (level_print (elements item inside)).closed
    rw [Value.print, Value.printItems_eq_map]
    exact denotes_array all closed

theorem denotes_print_of_expressible {v : Value} (expressible : v.Expressible) : Denotes v.print v := by
  cases expressible with
  | string s => exact denotes_quotes s
  | element element => exact denotes_print element

end Literal

end Settings
