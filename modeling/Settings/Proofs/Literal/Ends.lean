import Settings.Proofs.Literal.Grammar
import Settings.Proofs.Token.Leading

namespace Settings

namespace Literal

open Text (Digits sign)

theorem exists_cons_of_digits (negative : Bool) {whole : List Char} (digits : Digits whole) :
    ∃ c rest, sign negative ++ whole = c :: rest ∧ (c = '-' ∨ c.isDigit = true) := by
  cases negative with
  | true => exact ⟨'-', whole, rfl, Or.inl rfl⟩
  | false =>
    obtain ⟨c, rest, rfl⟩ := List.exists_cons_of_ne_nil digits.nonempty
    exact ⟨c, rest, rfl, Or.inr (digits.numeric c List.mem_cons_self)⟩

theorem exists_concat_of_digits (front : List Char) {digits : List Char} (last : Digits digits) :
    ∃ before c, front ++ digits = before ++ [c] ∧ c.isDigit = true := by
  obtain ⟨before, c, rfl⟩ := List.eq_nil_or_concat digits |>.resolve_left last.nonempty
  refine ⟨front ++ before, c, by simp, last.numeric c (by simp)⟩

/-- A literal starts with a quote, a brace, a minus or a digit. -/
theorem Denotes.exists_cons {text : List Char} {v : Value} (denotes : Denotes text v) :
    ∃ c rest, text = c :: rest ∧ (c = '\'' ∨ c = '{' ∨ c = '-' ∨ c.isDigit = true) := by
  cases denotes with
  | string => exact ⟨_, _, rfl, Or.inl rfl⟩
  | array => exact ⟨_, _, rfl, Or.inr (Or.inl rfl)⟩
  | @int negative whole n digits =>
    obtain ⟨c, rest, shape, first⟩ := exists_cons_of_digits negative digits
    exact ⟨c, rest, shape, Or.inr (Or.inr first)⟩
  | @float negative whole fraction code digits =>
    obtain ⟨c, rest, shape, first⟩ := exists_cons_of_digits negative digits
    exact ⟨c, rest ++ '.' :: fraction, by rw [shape, List.cons_append], Or.inr (Or.inr first)⟩

/-- It ends with a quote, a brace or a digit. -/
theorem Denotes.exists_concat {text : List Char} {v : Value} (denotes : Denotes text v) :
    ∃ before c, text = before ++ [c] ∧ (c = '\'' ∨ c = '}' ∨ c.isDigit = true) := by
  cases denotes with
  | string characters => exact ⟨'\'' :: characters, _, rfl, Or.inl rfl⟩
  | @array segments => exact ⟨'{' :: ['.'].intercalate segments, _, rfl, Or.inr (Or.inl rfl)⟩
  | @int negative whole n digits =>
    obtain ⟨before, c, shape, last⟩ := exists_concat_of_digits (sign negative) digits
    exact ⟨before, c, shape, Or.inr (Or.inr last)⟩
  | @float negative whole fraction code digits fractional =>
    obtain ⟨before, c, shape, last⟩ :=
      exists_concat_of_digits (sign negative ++ whole ++ ['.']) fractional
    rw [List.append_assoc, List.singleton_append] at shape
    exact ⟨before, c, shape, Or.inr (Or.inr last)⟩

theorem Denotes.ne_nil {text : List Char} {v : Value} (denotes : Denotes text v) : text ≠ [] := by
  obtain ⟨first, rest, rfl, -⟩ := denotes.exists_cons
  exact List.cons_ne_nil first rest

/-- So there are no blanks around a literal. -/
theorem Denotes.trim_eq {text : List Char} {v : Value} (denotes : Denotes text v) : Text.trim text = text := by
  have visible {c : Char} (digit : c.isDigit = true) : Text.isBlank c = false :=
    not_isBlank_of_isAlphanum (by rw [Char.isAlphanum, digit, Bool.or_true])
  obtain ⟨first, rest, front, opening⟩ := denotes.exists_cons
  obtain ⟨before, last, back, closing⟩ := denotes.exists_concat
  refine Text.trim_eq_self ?_ ?_
  · rw [front]
    rintro _ ⟨⟩
    rcases opening with rfl | rfl | rfl | digit
    · rfl
    · rfl
    · rfl
    · exact visible digit
  · rw [back, List.getLast?_concat]
    rintro _ ⟨⟩
    rcases closing with rfl | rfl | digit
    · rfl
    · rfl
    · exact visible digit

end Literal

namespace Statement

open Literal (Denotes)

variable {text : List Char} {v : Value}

/-- A literal refers to no constant. -/
theorem referent?_of_literal (value : literal text = .ok v) : referent? text = none := by
  obtain ⟨first, rest, rfl, opening⟩ := (literal_eq_ok_iff.mp value).exists_cons
  have other : first ≠ '#' := by
    rintro rfl
    revert opening
    decide
  rw [referent?]
  rintro _ ⟨⟩
  exact other rfl

/-- A colon in front of a literal is no part of another operator. -/
theorem head?_ne_of_literal (value : literal text = .ok v) : text.head? ≠ some '=' := by
  obtain ⟨first, rest, rfl, opening⟩ := (literal_eq_ok_iff.mp value).exists_cons
  rintro ⟨⟩
  revert opening
  decide

end Statement

end Settings
