import Settings.Proofs.Literal.Fragments
import Settings.Proofs.Statement.Binding

namespace Settings.Statement

/-- A text that consists of a name, blanks, an operator, and something that is not blank. -/
structure Splits (operator : Token) (name : String) (gap rest text : List Char) : Prop where
  shape : text = name.toList ++ (gap ++ (operator.spelling ++ rest))
  identifier : IsIdentifier name
  blank : Text.Blank gap
  visible : Text.trim rest ≠ []

variable {operator : Token} {name other : String} {gap space rest behind text value : List Char}

theorem exists_spelling_eq_cons (known : operator = .define ∨ operator = .colon) :
    ∃ more, operator.spelling = ':' :: more := by
  rcases known with rfl | rfl
  · exact ⟨['='], rfl⟩
  · exact ⟨[], rfl⟩

/-- There is one way at most to split a text, for the name ends where no letter or digit follows and the
blanks end at the operator. -/
theorem Splits.unique (known : operator = .define ∨ operator = .colon)
    (first : Splits operator name gap rest text) (second : Splits operator other space behind text) :
    name = other ∧ gap = space ∧ rest = behind := by
  obtain ⟨more, colon⟩ := exists_spelling_eq_cons known
  have leading {name : String} {gap rest : List Char} (splits : Splits operator name gap rest text) :
      text.takeWhile Char.isAlphanum = name.toList ∧ (text.drop name.toList.length).takeWhile Text.isBlank = gap := by
    have ended : Unnamed (gap ++ (operator.spelling ++ rest)) := by
      rw [colon]
      exact unnamed_of_blank splits.blank rfl
    have stopped : ∀ c, (operator.spelling ++ rest).head? = some c → Text.isBlank c = false := by
      rw [colon]
      rintro _ ⟨⟩
      rfl
    rw [splits.shape, List.drop_left]
    exact ⟨(Text.takeWhile_run (fun c => splits.identifier.isAlphanum_of_mem) ended).1,
      (Text.takeWhile_run splits.blank stopped).1⟩
  obtain ⟨named, spaced⟩ := leading first
  obtain ⟨alsoNamed, alsoSpaced⟩ := leading second
  obtain rfl : name = other := String.toList_injective (named.symm.trans alsoNamed)
  obtain rfl : gap = space := spaced.symm.trans alsoSpaced
  have same := first.shape.symm.trans second.shape
  simp only [List.append_cancel_left_eq] at same
  exact ⟨rfl, rfl, same⟩

theorem Splits.rest_infix (splits : Splits operator name gap rest text) : rest <:+: text := by
  refine ⟨name.toList ++ (gap ++ operator.spelling), [], ?_⟩
  simp only [splits.shape, List.append_assoc, List.append_nil]

/-- What splits at an operator binds the name, unless the operator is the start of another one. -/
theorem Splits.binds (splits : Splits operator name gap rest text)
    (alone : operator = .colon → ¬ [':', '='] <:+: text) : Binds operator name (Text.trim rest) text := by
  obtain ⟨space, after, blankSpace, blankAfter, division⟩ := Text.exists_trim rest
  have none : Text.Blank [] := by decide
  have single : operator = .colon → (space ++ Text.trim rest).head? ≠ some '=' := by
    rintro rfl first
    obtain ⟨more, shape⟩ := List.head?_eq_some_iff.mp first
    refine alone rfl ⟨name.toList ++ gap, more ++ after, ?_⟩
    rw [splits.shape, division, shape]
    simp [Token.spelling]
  have binds := Binds.intro none splits.blank blankSpace blankAfter splits.identifier (Text.trim_trim rest)
    splits.visible single
  rw [splits.shape]
  rw [List.append_assoc] at division
  rw [List.nil_append, ← division] at binds
  exact binds

/-- What binds a name splits so, if there are no blanks around it. -/
theorem Binds.exists_splits (binds : Binds operator name value text) :
    ∃ gap rest, Splits operator name gap rest (Text.trim text) ∧ Text.trim rest = value := by
  obtain ⟨gap, space, blankGap, blankSpace, -, shape⟩ := binds.exists_trim_eq
  have kept : Text.trim (space ++ value) = value := (Text.trim_blank_append blankSpace).trans binds.trim_value
  have visible : Text.trim (space ++ value) ≠ [] := by
    rw [kept]
    exact binds.value_ne_nil
  exact ⟨gap, space ++ value, ⟨shape, binds.isIdentifier, blankGap, visible⟩, kept⟩

/-- A text that does not split binds nothing. -/
theorem binding?_eq_none (known : operator = .define ∨ operator = .colon)
    (whole : ∀ name gap rest, ¬ Splits operator name gap rest (Text.trim text)) :
    binding? operator (Text.trim text) = none := by
  refine Option.eq_none_iff_forall_ne_some.mpr ?_
  rintro ⟨name, value⟩ bound
  obtain ⟨gap, rest, splits, -⟩ := ((binding?_eq_some_iff known).mp bound).exists_splits
  rw [Text.trim_trim] at splits
  exact whole name gap rest splits

end Settings.Statement
