import Settings.Literal.Numeral
import Settings.Literal.Separation
import Settings.Text

namespace Settings.Literal

/-- The texts of the elements of an array: its segments without the blanks around them.
Blank segments are no elements, so a dot too many does no harm. -/
def elements? (text : List Char) : Option (List (List Char)) :=
  (Text.enclosed? '{' '}' text).bind fun interior =>
    (separate interior).map fun parts => (parts.map Text.trim).filter (· ≠ [])

theorem extent_filter_trim_le (parts : List (List Char)) :
    extent ((parts.map Text.trim).filter (· ≠ [])) ≤ extent parts := by
  induction parts with
  | nil => exact Nat.le_refl _
  | cons part rest ih =>
    have shorter := Text.length_trim_le part
    rw [List.map_cons, List.filter_cons, extent]
    split
    · rw [extent]
      omega
    · omega

/-- The elements of an array have fewer characters than the array, also when a separator is
counted for each. -/
theorem extent_elements_lt {text : List Char} {parts : List (List Char)}
    (found : elements? text = some parts) : extent parts < text.length := by
  obtain ⟨interior, inside, divided⟩ := Option.bind_eq_some_iff.mp found
  obtain ⟨all, separated, rfl⟩ := Option.map_eq_some_iff.mp divided
  have whole := extent_separate separated
  have kept := extent_filter_trim_le all
  rw [Text.eq_of_enclosed? inside]
  simp only [List.length_cons, List.length_append, List.length_nil]
  omega

mutual

/-- The value of a literal without blanks around it, or else the fragment that is not one.
A text in single quotes is a string, all characters between them taken as they are. Next
comes a numeral, and last an array in braces, whose first bad element is the fragment. -/
def read (text : List Char) : Except (List Char) Value :=
  match Text.enclosed? '\'' '\'' text with
  | some characters => .ok (.string (String.ofList characters))
  | none =>
    match Numeral.ofText? text with
    | some numeral =>
      match numeral.number? with
      | some n => .ok (.number n)
      | none => .error text
    | none =>
      match _ : elements? text with
      | some parts => (readAll parts).map .array
      | none => .error text
termination_by text.length
decreasing_by exact extent_elements_lt ‹_›

/-- The values of several literals, or the fragment at which the first bad one fails. -/
def readAll : List (List Char) → Except (List Char) (List Value)
  | [] => .ok []
  | part :: rest => (read part).bind fun v => (readAll rest).map (v :: ·)
termination_by parts => extent parts
decreasing_by
  all_goals
    rw [extent]
    omega

end

end Settings.Literal
