import Settings.Proofs.Literal.Grammar

namespace Settings

theorem Text.trim_infix (text : List Char) : trim text <:+: text := by
  obtain ⟨before, after, -, -, division⟩ := exists_trim text
  exact ⟨before, after, division.symm⟩

theorem infix_intercalate_of_mem {α : Type} {separator part : List α} {parts : List (List α)}
    (member : part ∈ parts) : part <:+: separator.intercalate parts := by
  induction parts with
  | nil => cases member
  | cons first rest ih =>
    cases rest with
    | nil =>
      rw [List.mem_singleton.mp member, List.intercalate_singleton]
    | cons second rest =>
      rw [List.intercalate_cons_cons, List.append_assoc]
      rcases List.mem_cons.mp member with rfl | behind
      · exact (List.prefix_append _ _).isInfix
      · exact (ih behind).trans ((List.suffix_append _ _).trans (List.suffix_append _ _)).isInfix

/-- The first place in a list where something holds is the head, or lies behind a head where it does not
have to. -/
theorem exists_first_cons_iff {α : Type} {P Q : α → Prop} {a : α} {list : List α} :
    (∃ before x after, a :: list = before ++ x :: after ∧ (∀ y ∈ before, P y) ∧ Q x) ↔
      Q a ∨ P a ∧ ∃ before x after, list = before ++ x :: after ∧ (∀ y ∈ before, P y) ∧ Q x := by
  constructor
  · rintro ⟨before, x, after, division, front, holds⟩
    cases before with
    | nil =>
      cases division
      exact Or.inl holds
    | cons b before =>
      cases division
      obtain ⟨here, later⟩ := List.forall_mem_cons.mp front
      exact Or.inr ⟨here, before, x, after, rfl, later, holds⟩
  · rintro (holds | ⟨here, before, x, after, rfl, front, holds⟩)
    · exact ⟨[], a, list, rfl, nofun, holds⟩
    · exact ⟨a :: before, x, after, rfl, List.forall_mem_cons.mpr ⟨here, front⟩, holds⟩

namespace Literal

/-- What is wrong in a text is the text as a whole, unless it is an array, and then it can be what is wrong
in the first bad element. -/
theorem read_eq_error_cases {text fragment : List Char} (failed : read text = .error fragment) :
    fragment = text ∨ ∃ interior parts, text = '{' :: (interior ++ ['}']) ∧ separate interior = some parts ∧
      readAll ((parts.map Text.trim).filter (· ≠ [])) = .error fragment := by
  rw [read] at failed
  split at failed
  · cases failed
  · split at failed
    · split at failed
      · cases failed
      · cases failed
        exact Or.inl rfl
    · split at failed
      · rename_i elements divided
        obtain ⟨interior, inside, division⟩ := Option.bind_eq_some_iff.mp divided
        obtain ⟨parts, separated, rfl⟩ := Option.map_eq_some_iff.mp division
        exact Or.inr ⟨interior, parts, Text.eq_of_enclosed? inside, separated, eq_error_of_map_eq_error failed⟩
      · cases failed
        exact Or.inl rfl

theorem infix_of_element {interior element : List Char} {parts : List (List Char)}
    (divided : separate interior = some parts)
    (member : element ∈ (parts.map Text.trim).filter (· ≠ [])) :
    element <:+: '{' :: (interior ++ ['}']) := by
  obtain ⟨part, inside, rfl⟩ := List.mem_map.mp (List.mem_filter.mp member).1
  have joined : part <:+: interior := by
    rw [(separate_eq_some_iff.mp divided).2.2]
    exact infix_intercalate_of_mem inside
  have whole : interior <:+: '{' :: (interior ++ ['}']) := ⟨['{'], ['}'], rfl⟩
  exact ((Text.trim_infix part).trans joined).trans whole

/-- A text without blanks around it is no literal because of a fragment. This is the text as a whole if it has
none of the forms and is no array with balanced braces either. In such an array it is the fragment of the
first bad segment, in front of which there are only blank segments and literals. -/
inductive Rejects : List Char → List Char → Prop
  | whole {text : List Char} : (∀ v, ¬ Denotes text v) →
      (∀ interior, text = '{' :: (interior ++ ['}']) → separate interior = none) → Rejects text text
  | element {interior segment fragment : List Char} {before after : List (List Char)} :
      separate interior = some (before ++ segment :: after) →
      (∀ earlier ∈ before, Text.Blank earlier ∨ ∃ v, Denotes (Text.trim earlier) v) →
      ¬ Text.Blank segment → Rejects (Text.trim segment) fragment →
      Rejects ('{' :: (interior ++ ['}'])) fragment

theorem elements_cons_of_blank {segment : List Char} (blank : Text.Blank segment) (rest : List (List Char)) :
    ((segment :: rest).map Text.trim).filter (· ≠ []) = (rest.map Text.trim).filter (· ≠ []) := by
  simp [(Text.trim_eq_nil_iff segment).mpr blank]

theorem elements_cons_of_not_blank {segment : List Char} (visible : ¬ Text.Blank segment)
    (rest : List (List Char)) :
    ((segment :: rest).map Text.trim).filter (· ≠ []) =
      Text.trim segment :: (rest.map Text.trim).filter (· ≠ []) := by
  simp [mt (Text.trim_eq_nil_iff segment).mp visible]

/-- Among the segments of an array reading stops at the first one that is bad, and skips blank ones. -/
theorem readAll_eq_error_iff {segments : List (List Char)} {fragment : List Char} :
    readAll ((segments.map Text.trim).filter (· ≠ [])) = .error fragment ↔
      ∃ before segment after, segments = before ++ segment :: after ∧
        (∀ earlier ∈ before, Text.Blank earlier ∨ ∃ v, read (Text.trim earlier) = .ok v) ∧
        ¬ Text.Blank segment ∧ read (Text.trim segment) = .error fragment := by
  induction segments with
  | nil =>
    rw [List.map_nil, List.filter_nil, readAll]
    simp
  | cons first rest ih =>
    rw [exists_first_cons_iff, ← ih]
    by_cases blank : Text.Blank first
    · rw [elements_cons_of_blank blank]
      simp only [blank, not_true_eq_false, false_and, true_or, true_and, false_or]
    · rw [elements_cons_of_not_blank blank, readAll]
      cases good : read (Text.trim first) with
      | ok v =>
        cases readAll ((rest.map Text.trim).filter (· ≠ [])) <;> simp [blank, Except.bind, Except.map]
      | error wrong => simp [blank, Except.bind]

theorem read_braces_eq_error_iff {interior fragment : List Char} {parts : List (List Char)}
    (divided : separate interior = some parts) :
    read ('{' :: (interior ++ ['}'])) = .error fragment ↔
      readAll ((parts.map Text.trim).filter (· ≠ [])) = .error fragment := by
  simp only [read_braces, divided]
  cases readAll ((parts.map Text.trim).filter (· ≠ [])) <;> simp [Except.map]

theorem Rejects.read_eq_error {text fragment : List Char} (rejects : Rejects text fragment) :
    read text = .error fragment := by
  induction rejects with
  | @whole text formless unbalanced =>
    cases failed : read text with
    | ok v => exact absurd (read_eq_ok_iff_denotes.mp failed) (formless v)
    | error fragment =>
      rcases read_eq_error_cases failed with rfl | ⟨interior, parts, shape, divided, -⟩
      · rfl
      · rw [unbalanced interior shape] at divided
        cases divided
  | @element interior segment fragment before after divided fine visible _ ih =>
    rw [read_braces_eq_error_iff divided, readAll_eq_error_iff]
    refine ⟨before, segment, after, rfl, ?_, visible, ih⟩
    simpa only [read_eq_ok_iff_denotes] using fine

theorem rejects_of_read_error {text fragment : List Char} (failed : read text = .error fragment) :
    Rejects text fragment := by
  -- By length, for the elements of an array are shorter than the array.
  induction size : text.length using Nat.strongRecOn generalizing text with
  | ind n ih =>
    rcases em (∃ interior parts, text = '{' :: (interior ++ ['}']) ∧ separate interior = some parts) with
      ⟨interior, parts, rfl, divided⟩ | unbalanced
    · obtain ⟨before, segment, after, rfl, fine, visible, bad⟩ :=
        readAll_eq_error_iff.mp ((read_braces_eq_error_iff divided).mp failed)
      have member : Text.trim segment ∈ ((before ++ segment :: after).map Text.trim).filter (· ≠ []) := by
        simp [mt (Text.trim_eq_nil_iff segment).mp visible]
      have shorter := length_lt_of_element divided member
      simp only [read_eq_ok_iff_denotes] at fine
      exact .element divided fine visible (ih _ (size ▸ shorter) bad rfl)
    · have same : fragment = text := by
        rcases read_eq_error_cases failed with same | ⟨interior, parts, shape, divided, -⟩
        · exact same
        · exact absurd ⟨interior, parts, shape, divided⟩ unbalanced
      subst same
      refine .whole ?_ ?_
      · intro v denotes
        rw [read_eq_ok_iff_denotes.mpr denotes] at failed
        cases failed
      · intro interior shape
        refine Option.eq_none_iff_forall_ne_some.mpr ?_
        exact fun parts divided => unbalanced ⟨interior, parts, shape, divided⟩

/-- Reading refuses a text for the fragment because of which it is no literal. -/
theorem read_eq_error_iff {text fragment : List Char} : read text = .error fragment ↔ Rejects text fragment :=
  ⟨rejects_of_read_error, Rejects.read_eq_error⟩

/-- The fragment is what is wrong with it by itself. -/
theorem Rejects.alone {text fragment : List Char} (rejects : Rejects text fragment) : Rejects fragment fragment := by
  induction rejects with
  | whole formless unbalanced => exact .whole formless unbalanced
  | element _ _ _ _ ih => exact ih

theorem Rejects.trim_eq {text fragment : List Char} (rejects : Rejects text fragment)
    (trimmed : Text.trim text = text) : Text.trim fragment = fragment := by
  induction rejects with
  | whole => exact trimmed
  | element _ _ _ _ ih => exact ih (Text.trim_trim _)

theorem Rejects.ne_nil {text fragment : List Char} (rejects : Rejects text fragment) (nonempty : text ≠ []) :
    fragment ≠ [] := by
  induction rejects with
  | whole => exact nonempty
  | element _ _ visible _ ih => exact ih (mt (Text.trim_eq_nil_iff _).mp visible)

theorem Rejects.isInfix {text fragment : List Char} (rejects : Rejects text fragment) : fragment <:+: text := by
  induction rejects with
  | whole => exact List.infix_rfl
  | @element interior segment fragment before after divided _ visible _ ih =>
    refine ih.trans (infix_of_element divided ?_)
    simp [mt (Text.trim_eq_nil_iff segment).mp visible]

end Literal

end Settings
