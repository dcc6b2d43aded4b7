import Settings.Proofs.Literal.Fragments

namespace Settings

theorem parseValue_eq_error_iff {text : String} {e : ParseError} :
    parseValue text = .error e ↔ ∃ fragment, Literal.Rejects (Text.trim text.toList) fragment ∧
      e = ⟨1, .invalidLiteral (String.ofList fragment)⟩ := by
  simp only [← Literal.read_eq_error_iff, parseValue, Statement.literal]
  cases Literal.read (Text.trim text.toList) <;> simp [Except.mapError, eq_comm]

namespace Literal

/-- A text that is no literal is refused because of a part of it without blanks around it, which is refused
alike by itself. If this is not the whole text, then the text is an array, and its first segment that is
neither blank nor a literal is refused because of the same part. -/
theorem parseValue_rejects {text : String} {e : ParseError} (failed : parseValue text = .error e) :
    ∃ fragment, e = ⟨1, .invalidLiteral (String.ofList fragment)⟩ ∧
      Text.trim fragment = fragment ∧ fragment <:+: text.toList ∧
      parseValue (String.ofList fragment) = .error e ∧
      (fragment = Text.trim text.toList ∨
        ∃ interior before segment after, Text.trim text.toList = '{' :: (interior ++ ['}']) ∧
          separate interior = some (before ++ segment :: after) ∧
          (∀ earlier ∈ before, Text.Blank earlier ∨ ∃ v, parseValue (String.ofList earlier) = .ok v) ∧
          ¬ Text.Blank segment ∧ parseValue (String.ofList segment) = .error e) ∧
      ∀ other, Rejects (Text.trim text.toList) other ↔ other = fragment := by
  obtain ⟨fragment, rejects, rfl⟩ := parseValue_eq_error_iff.mp failed
  have trimmed := rejects.trim_eq (Text.trim_trim _)
  have alone : parseValue (String.ofList fragment) = .error ⟨1, .invalidLiteral (String.ofList fragment)⟩ :=
    parseValue_eq_error_iff.mpr ⟨fragment, by rw [String.toList_ofList, trimmed]; exact rejects.alone, rfl⟩
  refine ⟨fragment, rfl, trimmed, rejects.isInfix.trans (Text.trim_infix _), alone, ?_, ?_⟩
  · generalize shape : Text.trim text.toList = bare at rejects
    cases rejects with
    | whole => exact Or.inl rfl
    | @element interior segment _ before after divided fine visible inner =>
      refine Or.inr ⟨interior, before, segment, after, rfl, divided, ?_, visible, ?_⟩
      · simpa only [parseValue_eq_ok_iff, String.toList_ofList, read_eq_ok_iff_denotes] using fine
      · exact parseValue_eq_error_iff.mpr ⟨fragment, by rwa [String.toList_ofList], rfl⟩
  · intro other
    rw [← read_eq_error_iff, rejects.read_eq_error, Except.error.injEq, eq_comm]

/-- An integer that is too large, behind a blank segment, literals and an empty array. -/
theorem parseValue_rejects_nested :
    let text := r" { 'a' . . { 1 . { } ." ++ "\t" ++ r"99999999999999999999 } . ? }"
    let e : ParseError := ⟨1, .invalidLiteral "99999999999999999999"⟩
    parseValue text = .error e ∧ parseValue "99999999999999999999" = .error e ∧
      Rejects (Text.trim text.toList) "99999999999999999999".toList := by
  intro text e
  have spelled : text.toList = r" { 'a' . . { 1 . { } .".toList ++ '\t' :: r"99999999999999999999 } . ? }".toList := by
    decide +kernel
  have failed : parseValue text = .error e := by
    rw [parseValue, spelled]
    with_unfolding_all rfl
  obtain ⟨fragment, same, -, -, alone, -, unique⟩ := parseValue_rejects failed
  have shown : String.ofList fragment = "99999999999999999999" := by
    injection same with _ fault
    injection fault with fault
    exact fault.symm
  rw [shown] at alone
  refine ⟨failed, alone, (unique _).mpr ?_⟩
  rw [← shown, String.toList_ofList]

end Literal

end Settings
