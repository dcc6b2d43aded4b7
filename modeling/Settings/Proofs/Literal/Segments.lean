import Settings.Proofs.Literal.Closed

namespace Settings.Literal

theorem segments_dot (quoted : Bool) (rest : List Char) :
    segments ⟨0, quoted⟩ ('.' :: rest) = (separate rest).map ([] :: ·) := by
  simp only [segments, true_and, if_true, separate]

theorem segments_close (rest : List Char) : segments ⟨0, false⟩ ('}' :: rest) = none := by
  simp [segments, Nesting.after]

theorem exists_cons_of_segments {place : Nesting} {text : List Char} {parts : List (List Char)}
    (divided : segments place text = some parts) : ∃ first later, parts = first :: later := by
  have size := extent_segments divided
  cases parts with
  | nil => simp [extent] at size
  | cons first later => exact ⟨first, later, rfl⟩

theorem exists_first_of_segments_cons {place : Nesting} {c : Char} {rest : List Char}
    {parts : List (List Char)} (notDot : ¬ (c = '.' ∧ place.depth = 0))
    (divided : segments place (c :: rest) = some parts) :
    ∃ first later, parts = (c :: first) :: later := by
  rw [segments, if_neg notDot] at divided
  obtain ⟨next, _, onward⟩ := Option.bind_eq_some_iff.mp divided
  obtain ⟨tail, found, rfl⟩ := Option.map_eq_some_iff.mp onward
  obtain ⟨first, later, rfl⟩ := exists_cons_of_segments found
  exact ⟨first, later, rfl⟩

/-- What is read through goes in front of the first segment of what follows. -/
theorem segments_through {place next : Nesting} {text rest : List Char}
    {parts : List (List Char)} (inside : place.through text = some next) :
    segments place (text ++ rest) = some parts ↔
      ∃ first later, segments next rest = some (first :: later) ∧
        parts = (text ++ first) :: later := by
  induction text generalizing place parts with
  | nil =>
    cases inside
    constructor
    · intro divided
      obtain ⟨first, later, rfl⟩ := exists_cons_of_segments divided
      exact ⟨first, later, divided, rfl⟩
    · rintro ⟨first, later, divided, rfl⟩
      exact divided
  | cons c text ih =>
    rw [Nesting.through] at inside
    split at inside
    · cases inside
    · rename_i notDot
      obtain ⟨middle, step, onward⟩ := Option.bind_eq_some_iff.mp inside
      rw [List.cons_append, segments, if_neg notDot, step, Option.bind_some,
        Option.map_eq_some_iff]
      constructor
      · rintro ⟨inner, divided, rfl⟩
        obtain ⟨first, later, tail, rfl⟩ := (ih onward).mp divided
        exact ⟨first, later, tail, rfl⟩
      · rintro ⟨first, later, tail, rfl⟩
        exact ⟨(text ++ first) :: later, (ih onward).mpr ⟨first, later, tail, rfl⟩, rfl⟩

theorem segments_through_eq_none {place next : Nesting} {text rest : List Char}
    (inside : place.through text = some next) (undivided : segments next rest = none) :
    segments place (text ++ rest) = none := by
  refine Option.eq_none_iff_forall_ne_some.mpr ?_
  intro parts divided
  obtain ⟨first, later, tail, -⟩ := (segments_through inside).mp divided
  rw [undivided] at tail
  cases tail

/-- A brace that closes a level which is not open leaves a text without a division. -/
theorem separate_append_close {start : List Char}
    (inside : Nesting.outermost.through start = some ⟨0, false⟩) (rest : List Char) :
    separate (start ++ '}' :: rest) = none :=
  segments_through_eq_none inside (segments_close rest)

/-- Separation goes from one closed segment to the next. -/
theorem separate_iff {interior : List Char} {parts : List (List Char)} :
    separate interior = some parts ↔
      Closed interior ∧ parts = [interior] ∨
        ∃ start rest later, Closed start ∧ interior = start ++ '.' :: rest ∧
          separate rest = some later ∧ parts = start :: later := by
  constructor
  · intro divided
    rcases Nesting.through_cases .outermost interior with ⟨⟨depth, quoted⟩, inside⟩ |
      ⟨start, rest, quoted, rfl, inside⟩ | ⟨start, rest, rfl, inside⟩
    · rw [separate, ← List.append_nil interior] at divided
      obtain ⟨first, later, last, rfl⟩ := (segments_through inside).mp divided
      rw [segments] at last
      split at last
      · rename_i ground
        cases last
        obtain rfl : depth = 0 := ground
        exact Or.inl ⟨(closed_iff_through _).mpr ⟨quoted, inside⟩, by rw [List.append_nil]⟩
      · cases last
    · obtain ⟨first, later, tail, rfl⟩ := (segments_through inside).mp divided
      rw [segments_dot] at tail
      obtain ⟨others, found, same⟩ := Option.map_eq_some_iff.mp tail
      cases same
      exact Or.inr ⟨start, rest, later, (closed_iff_through _).mpr ⟨quoted, inside⟩, rfl,
        found, by rw [List.append_nil]⟩
    · rw [separate_append_close inside] at divided
      cases divided
  · rintro (⟨closed, rfl⟩ | ⟨start, rest, later, closed, rfl, found, rfl⟩)
    · obtain ⟨quoted, inside⟩ := (closed_iff_through _).mp closed
      rw [separate, ← List.append_nil interior]
      exact (segments_through inside).mpr ⟨[], [], rfl, by rw [List.append_nil]⟩
    · obtain ⟨quoted, inside⟩ := (closed_iff_through _).mp closed
      refine (segments_through inside).mpr ⟨[], later, ?_, by rw [List.append_nil]⟩
      rw [segments_dot, found, Option.map_some]

theorem separate_of_closed {segment : List Char} (closed : Closed segment) :
    separate segment = some [segment] :=
  separate_iff.mpr (Or.inl ⟨closed, rfl⟩)

theorem separate_append_dot {segment rest : List Char} (closed : Closed segment) :
    separate (segment ++ '.' :: rest) = (separate rest).map (segment :: ·) := by
  obtain ⟨quoted, inside⟩ := (closed_iff_through _).mp closed
  cases found : separate rest with
  | some later => exact separate_iff.mpr (Or.inr ⟨segment, rest, later, closed, rfl, found, rfl⟩)
  | none =>
    have undivided : segments ⟨0, quoted⟩ ('.' :: rest) = none := by
      rw [segments_dot, found, Option.map_none]
    exact segments_through_eq_none inside undivided

theorem mem_intercalate_iff {α : Type} {a : α} {separator : List α} {parts : List (List α)} :
    a ∈ separator.intercalate parts ↔
      (∃ part ∈ parts, a ∈ part) ∨ a ∈ separator ∧ 2 ≤ parts.length := by
  induction parts with
  | nil => simp
  | cons first rest ih =>
    cases rest with
    | nil => simp
    | cons second rest =>
      have more : 2 ≤ (first :: second :: rest).length := Nat.le_add_left 2 _
      rw [List.intercalate_cons_cons, List.mem_append, List.mem_append, ih,
        List.exists_mem_cons_iff _ first, and_iff_left more, or_assoc, or_assoc]
      refine or_congr_right ⟨?_, ?_⟩
      · rintro (border | inside | ⟨border, _⟩)
        · exact Or.inr border
        · exact Or.inl inside
        · exact Or.inr border
      · rintro (inside | border)
        · exact Or.inr (Or.inl inside)
        · exact Or.inl border

/-- The division of a text is its only one into closed segments with dots between them. -/
theorem separate_eq_some_iff {interior : List Char} {parts : List (List Char)} :
    separate interior = some parts ↔
      parts ≠ [] ∧ (∀ part ∈ parts, Closed part) ∧ interior = ['.'].intercalate parts := by
  induction parts generalizing interior with
  | nil =>
    refine iff_of_false ?_ (fun impossible => impossible.1 rfl)
    intro divided
    obtain ⟨first, later, same⟩ := exists_cons_of_segments divided
    cases same
  | cons part parts ih =>
    rw [separate_iff]
    constructor
    · rintro (⟨closed, same⟩ | ⟨start, rest, later, closed, rfl, found, same⟩)
      · cases same
        refine ⟨List.cons_ne_nil _ _, ?_, (List.intercalate_singleton ..).symm⟩
        intro other member
        rw [List.mem_singleton.mp member]
        exact closed
      · cases same
        obtain ⟨nonempty, all, rfl⟩ := ih.mp found
        refine ⟨List.cons_ne_nil _ _, ?_, ?_⟩
        · intro other member
          rcases List.mem_cons.mp member with rfl | behind
          · exact closed
          · exact all other behind
        · rw [List.intercalate_cons_of_ne_nil nonempty, List.append_assoc, List.singleton_append]
    · rintro ⟨-, all, rfl⟩
      have closed := all part List.mem_cons_self
      by_cases single : parts = []
      · subst single
        rw [List.intercalate_singleton]
        exact Or.inl ⟨closed, rfl⟩
      · refine Or.inr ⟨part, ['.'].intercalate parts, parts, closed, ?_, ?_, rfl⟩
        · rw [List.intercalate_cons_of_ne_nil single, List.append_assoc, List.singleton_append]
        · exact ih.mpr ⟨single, fun other member => all other (List.mem_cons_of_mem part member), rfl⟩

/-- The last segment of a text is still open to what is written after the text. -/
theorem exists_last_of_separate {interior : List Char} {parts : List (List Char)}
    (divided : separate interior = some parts) :
    ∃ before last quoted, parts = before ++ [last] ∧
      Nesting.outermost.through last = some ⟨0, quoted⟩ ∧
      ∀ rest whole, separate (interior ++ rest) = some whole →
        ∃ first later, segments ⟨0, quoted⟩ rest = some (first :: later) ∧
          whole = before ++ (last ++ first) :: later := by
  induction parts generalizing interior with
  | nil =>
    obtain ⟨first, later, same⟩ := exists_cons_of_segments divided
    cases same
  | cons part parts ih =>
    rcases separate_iff.mp divided with ⟨closed, same⟩ | ⟨start, rest, later, closed, rfl, found, same⟩
    · cases same
      obtain ⟨quoted, inside⟩ := (closed_iff_through _).mp closed
      refine ⟨[], part, quoted, rfl, inside, ?_⟩
      intro rest whole longer
      exact (segments_through inside).mp longer
    · cases same
      obtain ⟨before, last, quoted, rfl, inside, resume⟩ := ih found
      refine ⟨part :: before, last, quoted, rfl, inside, ?_⟩
      intro more whole longer
      rw [List.append_assoc, List.cons_append, separate_append_dot closed] at longer
      obtain ⟨others, tail, rfl⟩ := Option.map_eq_some_iff.mp longer
      obtain ⟨first, later, onward, rfl⟩ := resume more others tail
      exact ⟨first, later, onward, rfl⟩

end Settings.Literal
