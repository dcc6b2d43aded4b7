import Mathlib.Data.List.Infix
import Settings.Literal.Separation

namespace Settings.Literal

/-- How often a brace occurs in a text with an even number of quotes before it. -/
def unquoted (brace : Char) (text : List Char) : Nat :=
  text.inits.countP fun start => start.getLast? = some brace ∧ start.count '\'' % 2 = 0

/-- A text that is one segment of an array by itself. Of the braces only those with an even
number of quotes before them count, no brace closes a level that is not open, all levels are
closed at the end, and no dot stands outside all of them. -/
structure Closed (text : List Char) : Prop where
  rooted : ∀ start, start <+: text → unquoted '}' start ≤ unquoted '{' start
  level : unquoted '}' text = unquoted '{' text
  inner : ∀ start, start ++ ['.'] <+: text → unquoted '}' start < unquoted '{' start

theorem unquoted_concat (brace c : Char) (text : List Char) (notQuote : brace ≠ '\'') :
    unquoted brace (text ++ [c]) =
      unquoted brace text + if c = brace ∧ text.count '\'' % 2 = 0 then 1 else 0 := by
  have last : (text ++ [c]).inits = text.inits ++ [text ++ [c]] := by
    rw [List.inits_append]
    rfl
  rw [unquoted, last, List.countP_append, List.countP_singleton, unquoted]
  by_cases same : c = brace
  · subst c
    have uncounted : (text ++ [brace]).count '\'' = text.count '\'' := by
      rw [List.count_append, List.count_singleton]
      simp only [beq_iff_eq, notQuote, if_false, Nat.add_zero]
    simp only [List.getLast?_concat, uncounted, true_and, decide_eq_true_eq]
  · simp only [List.getLast?_concat, Option.some.injEq, same, false_and, decide_false,
      Bool.false_eq_true, if_false]

namespace Nesting

/-- The place after a text that lies in one segment. There is none where a dot ends the
segment or a brace closes a level that is not open. -/
def through (place : Nesting) : List Char → Option Nesting
  | [] => some place
  | c :: rest =>
    if c = '.' ∧ place.depth = 0 then none
    else (place.after c).bind fun next => next.through rest

theorem through_append (place : Nesting) (first second : List Char) :
    place.through (first ++ second) =
      (place.through first).bind fun next => next.through second := by
  induction first generalizing place with
  | nil => rfl
  | cons c rest ih =>
    rw [List.cons_append, through, through]
    split
    · rfl
    · rw [Option.bind_assoc]
      congr 1
      funext next
      exact ih next

theorem through_concat (place : Nesting) (text : List Char) (c : Char) :
    place.through (text ++ [c]) = (place.through text).bind fun next =>
      if c = '.' ∧ next.depth = 0 then none else next.after c := by
  rw [through_append]
  congr 1
  funext next
  rw [through]
  split
  · rfl
  · exact Option.bind_fun_some (next.after c)

/-- Blanks, letters and digits leave the place as it is. -/
theorem through_of_ordinary (place : Nesting) {text : List Char}
    (ordinary : ∀ c ∈ text, c ≠ '\'' ∧ c ≠ '{' ∧ c ≠ '}' ∧ c ≠ '.') :
    place.through text = some place := by
  induction text with
  | nil => rfl
  | cons c rest ih =>
    obtain ⟨notQuote, notOpen, notClose, notDot⟩ := ordinary c List.mem_cons_self
    have stays : place.after c = some place := by
      simp only [after, notQuote, notOpen, notClose, if_false, ite_self]
    rw [through, if_neg (fun dot => notDot dot.1), stays]
    exact ih (fun d member => ordinary d (List.mem_cons_of_mem c member))

theorem after_eq_none {place : Nesting} {c : Char} (stuck : place.after c = none) :
    c = '}' ∧ place = ⟨0, false⟩ := by
  obtain ⟨depth, quoted⟩ := place
  by_cases quote : c = '\''
  · simp [after, quote] at stuck
  cases quoted with
  | true => simp [after, quote] at stuck
  | false =>
    by_cases opening : c = '{'
    · simp [after, opening] at stuck
    by_cases closing : c = '}'
    · simp [after, closing] at stuck
      exact ⟨closing, by rw [stuck]⟩
    · simp [after, quote, opening, closing] at stuck

/-- All that one character can do to a place. -/
theorem after_cases {place next : Nesting} {c : Char} (step : place.after c = some next) :
    c = '\'' ∧ next = ⟨place.depth, !place.quoted⟩ ∨
      c ≠ '\'' ∧ place.quoted = true ∧ next = place ∨
      place.quoted = false ∧ c = '{' ∧ next = ⟨place.depth + 1, false⟩ ∨
      place.quoted = false ∧ c = '}' ∧ place = ⟨next.depth + 1, false⟩ ∧ next.quoted = false ∨
      c ≠ '\'' ∧ c ≠ '{' ∧ c ≠ '}' ∧ next = place := by
  obtain ⟨depth, quoted⟩ := place
  by_cases quote : c = '\''
  · simp only [after, quote, if_true, Option.some.injEq] at step
    exact Or.inl ⟨quote, step.symm⟩
  cases quoted with
  | true =>
    simp only [after, quote, if_true, if_false, Option.some.injEq] at step
    exact Or.inr (Or.inl ⟨quote, rfl, step.symm⟩)
  | false =>
    simp only [after, quote, Bool.false_eq_true, if_false] at step
    by_cases opening : c = '{'
    · rw [if_pos opening] at step
      exact Or.inr (Or.inr (Or.inl ⟨rfl, opening, (Option.some.inj step).symm⟩))
    rw [if_neg opening] at step
    by_cases closing : c = '}'
    · rw [if_pos closing] at step
      split at step
      · cases step
      · rename_i open_
        cases step
        have level : depth = depth - 1 + 1 := by omega
        exact Or.inr (Or.inr (Or.inr (Or.inl ⟨rfl, closing, by simp only [← level], rfl⟩)))
    · rw [if_neg closing] at step
      exact Or.inr (Or.inr (Or.inr (Or.inr ⟨quote, opening, closing, (Option.some.inj step).symm⟩)))

/-- A text is read through, or it meets a dot that ends the segment, or it meets a brace
that closes a level which is not open. -/
theorem through_cases (place : Nesting) (text : List Char) :
    (∃ next, place.through text = some next) ∨
      (∃ start rest quoted, text = start ++ '.' :: rest ∧
        place.through start = some ⟨0, quoted⟩) ∨
      (∃ start rest, text = start ++ '}' :: rest ∧ place.through start = some ⟨0, false⟩) := by
  induction text generalizing place with
  | nil => exact Or.inl ⟨place, rfl⟩
  | cons c rest ih =>
    by_cases dot : c = '.' ∧ place.depth = 0
    · obtain ⟨rfl, level⟩ := dot
      refine Or.inr (Or.inl ⟨[], rest, place.quoted, rfl, ?_⟩)
      rw [through, ← level]
    · cases step : place.after c with
      | none =>
        obtain ⟨rfl, rfl⟩ := after_eq_none step
        exact Or.inr (Or.inr ⟨[], rest, rfl, rfl⟩)
      | some next =>
        have shift (start : List Char) : place.through (c :: start) = next.through start := by
          rw [through, if_neg dot, step, Option.bind_some]
        rcases ih next with ⟨final, inside⟩ | ⟨start, tail, q, rfl, inside⟩ |
          ⟨start, tail, rfl, inside⟩
        · exact Or.inl ⟨final, (shift rest).trans inside⟩
        · exact Or.inr (Or.inl ⟨c :: start, tail, q, rfl, (shift start).trans inside⟩)
        · exact Or.inr (Or.inr ⟨c :: start, tail, rfl, (shift start).trans inside⟩)

/-- A place is the right one for what was read since the start of the segment. -/
structure Tracks (place : Nesting) (text : List Char) : Prop where
  depth : place.depth + unquoted '}' text = unquoted '{' text
  quoted : place.quoted = decide (text.count '\'' % 2 = 1)

theorem tracks_outermost : Tracks outermost [] :=
  ⟨rfl, rfl⟩

theorem Tracks.even {place : Nesting} {text : List Char} (tracks : Tracks place text)
    (outside : place.quoted = false) : text.count '\'' % 2 = 0 := by
  have parity := tracks.quoted
  rw [outside] at parity
  have even := of_decide_eq_false parity.symm
  omega

theorem Tracks.after {place next : Nesting} {text : List Char} {c : Char}
    (tracks : Tracks place text) (step : place.after c = some next) :
    Tracks next (text ++ [c]) := by
  have level := tracks.depth
  have parity := tracks.quoted
  have opened := unquoted_concat '{' c text (by decide)
  have closed := unquoted_concat '}' c text (by decide)
  have quotes : (text ++ [c]).count '\'' = text.count '\'' + if c = '\'' then 1 else 0 := by
    rw [List.count_append, List.count_singleton]
    simp only [beq_iff_eq]
  rcases after_cases step with ⟨rfl, rfl⟩ | ⟨other, inside, rfl⟩ | ⟨outside, rfl, rfl⟩ |
    ⟨outside, rfl, rfl, still⟩ | ⟨other, notOpen, notClose, rfl⟩
  · simp only [Char.reduceEq, false_and, if_false, if_true, Nat.add_zero] at opened closed quotes
    refine ⟨by rw [opened, closed]; exact level, ?_⟩
    rw [quotes, parity, ← decide_not]
    exact decide_eq_decide.mpr (by omega)
  · rw [inside] at parity
    have odd := of_decide_eq_true parity.symm
    have uneven : ¬ text.count '\'' % 2 = 0 := by omega
    simp only [uneven, and_false, other, if_false, Nat.add_zero] at opened closed quotes
    exact ⟨by rw [opened, closed]; exact level, by rw [quotes, inside, parity]⟩
  · have balanced := tracks.even outside
    simp only [balanced, Char.reduceEq, and_true, if_true, if_false, Nat.add_zero] at opened closed quotes
    rw [outside] at parity
    refine ⟨?_, by rw [quotes, parity]⟩
    rw [opened, closed, ← level]
    exact Nat.add_right_comm _ _ _
  · have balanced := tracks.even outside
    have deeper : next.depth + 1 + unquoted '}' text = unquoted '{' text := level
    simp only [balanced, Char.reduceEq, and_true, if_true, if_false, Nat.add_zero] at opened closed quotes
    exact ⟨by omega, by rw [quotes, still, ← parity]⟩
  · simp only [notOpen, notClose, other, false_and, if_false, Nat.add_zero] at opened closed quotes
    exact ⟨by rw [opened, closed]; exact level, by rw [quotes]; exact parity⟩

theorem tracks_through {place : Nesting} {text : List Char}
    (inside : outermost.through text = some place) : Tracks place text := by
  induction text using List.reverseRecOn generalizing place with
  | nil =>
    cases inside
    exact tracks_outermost
  | append_singleton text c ih =>
    rw [through_concat] at inside
    obtain ⟨middle, before, last⟩ := Option.bind_eq_some_iff.mp inside
    split at last
    · cases last
    · exact (ih before).after last

theorem through_prefix {place : Nesting} {start text : List Char} (part : start <+: text)
    (inside : outermost.through text = some place) :
    ∃ middle, outermost.through start = some middle := by
  obtain ⟨rest, rfl⟩ := part
  rw [through_append] at inside
  obtain ⟨middle, before, _⟩ := Option.bind_eq_some_iff.mp inside
  exact ⟨middle, before⟩

end Nesting

/-- A text in which no dot ends the segment and no brace closes a level that is not open, and at the end
of which a number of levels are open. -/
structure Climbs (text : List Char) (depth : Nat) : Prop where
  rooted : ∀ start, start <+: text → unquoted '}' start ≤ unquoted '{' start
  level : depth + unquoted '}' text = unquoted '{' text
  inner : ∀ start, start ++ ['.'] <+: text → unquoted '}' start < unquoted '{' start

theorem closed_iff_climbs (text : List Char) : Closed text ↔ Climbs text 0 := by
  constructor
  · rintro ⟨rooted, level, inner⟩
    exact ⟨rooted, by rw [Nat.zero_add, level], inner⟩
  · rintro ⟨rooted, level, inner⟩
    exact ⟨rooted, by rw [← level, Nat.zero_add], inner⟩

theorem Climbs.exists_through {text : List Char} {depth : Nat} (climbs : Climbs text depth) :
    ∃ quoted, Nesting.outermost.through text = some ⟨depth, quoted⟩ := by
  rcases Nesting.through_cases .outermost text with ⟨⟨reached, quoted⟩, inside⟩ |
    ⟨start, rest, quoted, rfl, inside⟩ | ⟨start, rest, rfl, inside⟩
  · have level := (Nesting.tracks_through inside).depth
    have counted := climbs.level
    simp only at level
    have same : reached = depth := by omega
    exact ⟨quoted, by rw [inside, same]⟩
  · have level := (Nesting.tracks_through inside).depth
    have deeper := climbs.inner start ⟨rest, by rw [List.append_assoc]; rfl⟩
    simp only at level
    omega
  · have tracks := Nesting.tracks_through inside
    have level := tracks.depth
    have balanced := tracks.even rfl
    have bound := climbs.rooted (start ++ ['}']) ⟨rest, by rw [List.append_assoc]; rfl⟩
    rw [unquoted_concat _ _ _ (by decide), unquoted_concat _ _ _ (by decide)] at bound
    simp only [balanced, Char.reduceEq, and_true, if_true, if_false] at bound level
    omega

theorem climbs_of_through {text : List Char} {depth : Nat} {quoted : Bool}
    (inside : Nesting.outermost.through text = some ⟨depth, quoted⟩) : Climbs text depth := by
  refine ⟨?_, (Nesting.tracks_through inside).depth, ?_⟩
  · intro start part
    obtain ⟨middle, before⟩ := Nesting.through_prefix part inside
    have level := (Nesting.tracks_through before).depth
    omega
  · intro start part
    obtain ⟨middle, before⟩ := Nesting.through_prefix part inside
    rw [Nesting.through_concat] at before
    obtain ⟨place, upTo, dot⟩ := Option.bind_eq_some_iff.mp before
    have level := (Nesting.tracks_through upTo).depth
    split at dot
    · cases dot
    · rename_i deep
      have positive : place.depth ≠ 0 := fun zero => deep ⟨rfl, zero⟩
      omega

/-- The counts of braces and quotes tell how far a text can be read through and to which depth. -/
theorem climbs_iff_through {text : List Char} {depth : Nat} :
    Climbs text depth ↔ ∃ quoted, Nesting.outermost.through text = some ⟨depth, quoted⟩ :=
  ⟨Climbs.exists_through, fun ⟨_, inside⟩ => climbs_of_through inside⟩

/-- A closed text is one that can be read through from the start of a segment to a place
where the segment may end. -/
theorem closed_iff_through (text : List Char) :
    Closed text ↔ ∃ quoted, Nesting.outermost.through text = some ⟨0, quoted⟩ :=
  (closed_iff_climbs text).trans climbs_iff_through

theorem closed_iff_depth (text : List Char) :
    Closed text ↔ (Nesting.outermost.through text).map Nesting.depth = some 0 := by
  rw [closed_iff_through, Option.map_eq_some_iff]
  constructor
  · rintro ⟨quoted, inside⟩
    exact ⟨⟨0, quoted⟩, inside, rfl⟩
  · rintro ⟨⟨depth, quoted⟩, inside, rfl⟩
    exact ⟨quoted, inside⟩

instance (text : List Char) : Decidable (Closed text) :=
  decidable_of_iff _ (closed_iff_depth text).symm

end Settings.Literal
