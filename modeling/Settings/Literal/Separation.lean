namespace Settings.Literal

/-- Where a character of an array's interior stands: how many inner levels are open before
it, and whether it follows an odd number of quotes. -/
structure Nesting where
  depth : Nat
  quoted : Bool
  deriving DecidableEq, Repr

namespace Nesting

/-- The place at which every segment starts. -/
def outermost : Nesting := ⟨0, false⟩

/-- The place after a character. Between two quotes braces do not count. No place follows
a brace that closes a level which is not open. -/
def after (place : Nesting) (c : Char) : Option Nesting :=
  if c = '\'' then some { place with quoted := !place.quoted }
  else if place.quoted then some place
  else if c = '{' then some { place with depth := place.depth + 1 }
  else if c = '}' then
    if place.depth = 0 then none else some { place with depth := place.depth - 1 }
  else some place

end Nesting

/-- Puts a character in front of the first segment. -/
def consFirst (c : Char) : List (List Char) → List (List Char)
  | [] => [[c]]
  | segment :: later => (c :: segment) :: later

/-- Divides text at the dots that stand at depth zero. Quotes do not protect a dot, so a
segment starts outside quotes whatever the one before it held. There is no division if a
brace closes a level that is not open, or a level is open at the end. -/
def segments (place : Nesting) : List Char → Option (List (List Char))
  | [] => if place.depth = 0 then some [[]] else none
  | c :: rest =>
    if c = '.' ∧ place.depth = 0 then (segments .outermost rest).map ([] :: ·)
    else (place.after c).bind fun next => (segments next rest).map (consFirst c)

/-- The segments of the interior of an array. -/
def separate (interior : List Char) : Option (List (List Char)) :=
  segments .outermost interior

/-- The number of characters of segments, each counted with one separator. -/
def extent : List (List Char) → Nat
  | [] => 0
  | part :: parts => part.length + 1 + extent parts

theorem extent_segments {place : Nesting} {text : List Char} {parts : List (List Char)}
    (divided : segments place text = some parts) : extent parts = text.length + 1 := by
  induction text generalizing place parts with
  | nil =>
    obtain ⟨_, rfl⟩ : place.depth = 0 ∧ [[]] = parts := by simpa [segments] using divided
    rfl
  | cons c rest ih =>
    by_cases separator : c = '.' ∧ place.depth = 0
    · rw [segments, if_pos separator] at divided
      obtain ⟨tail, found, rfl⟩ := Option.map_eq_some_iff.mp divided
      have size := ih found
      rw [extent, List.length_nil, List.length_cons]
      omega
    · rw [segments, if_neg separator] at divided
      obtain ⟨next, _, later⟩ := Option.bind_eq_some_iff.mp divided
      obtain ⟨tail, found, rfl⟩ := Option.map_eq_some_iff.mp later
      have size := ih found
      cases tail with
      | nil => simp [extent] at size
      | cons part parts =>
        rw [extent] at size
        rw [consFirst, extent, List.length_cons, List.length_cons]
        omega

/-- Separating an interior neither loses nor adds a character. -/
theorem extent_separate {interior : List Char} {parts : List (List Char)}
    (divided : separate interior = some parts) : extent parts = interior.length + 1 :=
  extent_segments divided

end Settings.Literal
