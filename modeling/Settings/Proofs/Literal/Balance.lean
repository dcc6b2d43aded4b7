import Settings.Proofs.Literal.Segments

namespace Settings.Literal

/-- The texts that have no division because of their braces. Behind closed segments, each with a dot after
it, a brace outside quotes closes a level that is not open, or a level is open at the end. -/
inductive Unbalanced : List Char → Prop
  | surplus {start rest : List Char} : Closed start → start.count '\'' % 2 = 0 →
      Unbalanced (start ++ '}' :: rest)
  | unfinished {text : List Char} {depth : Nat} : Climbs text (depth + 1) → Unbalanced text
  | later {segment rest : List Char} : Closed segment → Unbalanced rest →
      Unbalanced (segment ++ '.' :: rest)

theorem Unbalanced.separate_eq_none {interior : List Char} (unbalanced : Unbalanced interior) :
    separate interior = none := by
  induction unbalanced with
  | @surplus start rest closed balanced =>
    obtain ⟨quoted, inside⟩ := (closed_iff_through start).mp closed
    have parity : quoted = decide (start.count '\'' % 2 = 1) := (Nesting.tracks_through inside).quoted
    have even : ¬ start.count '\'' % 2 = 1 := by omega
    obtain rfl : quoted = false := parity.trans (decide_eq_false even)
    exact separate_append_close inside rest
  | @unfinished text depth climbs =>
    obtain ⟨quoted, inside⟩ := climbs.exists_through
    have stuck : segments ⟨depth + 1, quoted⟩ [] = none := rfl
    rw [separate, ← List.append_nil text]
    exact segments_through_eq_none inside stuck
  | later closed _ ih => rw [separate_append_dot closed, ih, Option.map_none]

theorem unbalanced_of_separate {interior : List Char} (undivided : separate interior = none) :
    Unbalanced interior := by
  -- By length: behind the first closed segment stands a shorter text without a division.
  induction size : interior.length using Nat.strongRecOn generalizing interior with
  | ind n ih =>
    rcases Nesting.through_cases .outermost interior with ⟨⟨depth, quoted⟩, inside⟩ |
      ⟨start, rest, quoted, rfl, inside⟩ | ⟨start, rest, rfl, inside⟩
    · cases depth with
      | zero =>
        rw [separate_of_closed ((closed_iff_through interior).mpr ⟨quoted, inside⟩)] at undivided
        cases undivided
      | succ depth => exact .unfinished (climbs_of_through inside)
    · have closed := (closed_iff_through start).mpr ⟨quoted, inside⟩
      rw [separate_append_dot closed, Option.map_eq_none_iff] at undivided
      have shorter : rest.length < n := by
        rw [← size, List.length_append, List.length_cons]
        omega
      exact .later closed (ih rest.length shorter undivided rfl)
    · have balanced := (Nesting.tracks_through inside).even rfl
      exact .surplus ((closed_iff_through start).mpr ⟨false, inside⟩) balanced

theorem separate_eq_none_iff {interior : List Char} : separate interior = none ↔ Unbalanced interior :=
  ⟨unbalanced_of_separate, Unbalanced.separate_eq_none⟩

/-- An odd quote hides the brace behind it. -/
example : separate r"{ 'a'b' }".toList = none := by decide

/-- Separation and joining with dots undo each other. The segments of a text are closed, at least one,
and their join is the text; closed texts are the segments of their join; and a text that is no such join
has no division, which happens just if its braces do not balance. -/
theorem separate_intercalate :
    (∀ interior parts, separate interior = some parts →
        parts ≠ [] ∧ (∀ part ∈ parts, Closed part) ∧ interior = ['.'].intercalate parts) ∧
      (∀ parts, parts ≠ [] → (∀ part ∈ parts, Closed part) →
        separate (['.'].intercalate parts) = some parts) ∧
      (∀ interior, separate interior = none ↔
        ¬ ∃ parts, parts ≠ [] ∧ (∀ part ∈ parts, Closed part) ∧ interior = ['.'].intercalate parts) ∧
      ∀ interior, separate interior = none ↔ Unbalanced interior := by
  refine ⟨fun interior parts => separate_eq_some_iff.mp, ?_, ?_, fun interior => separate_eq_none_iff⟩
  · intro parts nonempty closed
    exact separate_eq_some_iff.mpr ⟨nonempty, closed, rfl⟩
  · intro interior
    rw [Option.eq_none_iff_forall_ne_some, not_exists]
    exact forall_congr' fun parts => not_congr separate_eq_some_iff

/-- The first segment leaves a quote open, the second has braces, a quoted brace and a dot in it, and the
last is empty. -/
theorem separate_intercalate_quote :
    let parts := ["'".toList, r"{ '}' . 'c' }".toList, []]
    (∀ part ∈ parts, Closed part) ∧ separate r"'.{ '}' . 'c' }.".toList = some parts := by
  intro parts
  have closed : ∀ part ∈ parts, Closed part := by decide
  exact ⟨closed, separate_intercalate.2.1 parts (by decide) closed⟩

end Settings.Literal
