import Settings.Proofs.Session.Run
import Settings.Proofs.Source.Stripping

namespace Settings

/-- Lines with numbers that increase are known by their numbers. -/
theorem eq_of_number_eq {lines : List SourceLine} {i j : Nat} {line other : SourceLine}
    (increasing : lines.Pairwise fun line later => line.number < later.number)
    (first : lines[i]? = some line) (second : lines[j]? = some other)
    (same : line.number = other.number) : i = j := by
  obtain ⟨insideFirst, rfl⟩ := List.getElem?_eq_some_iff.mp first
  obtain ⟨insideSecond, rfl⟩ := List.getElem?_eq_some_iff.mp second
  have ordered := List.pairwise_iff_getElem.mp increasing
  rcases Nat.lt_trichotomy i j with less | equal | greater
  · have number := ordered i j insideFirst insideSecond less
    omega
  · exact equal
  · have number := ordered j i insideSecond insideFirst greater
    omega

namespace Bindings

/-- Numbers have no part in what lines bind. If lines are numbered from one instead, then the number
of the bad line is its place among them. -/
theorem readLines_numbered (bindings : Bindings) (first : Nat) (lines : List SourceLine) :
    (bindings.readLines (numbered first (lines.map SourceLine.content))).1 = (bindings.readLines lines).1 ∧
      ((bindings.readLines lines).2 = none ∧
          (bindings.readLines (numbered first (lines.map SourceLine.content))).2 = none ∨
        ∃ i line fault, lines[i]? = some line ∧ (bindings.readLines lines).2 = some ⟨line.number, fault⟩ ∧
          (bindings.readLines (numbered first (lines.map SourceLine.content))).2 =
            some ⟨first + i, fault⟩) := by
  induction lines generalizing bindings first with
  | nil => exact ⟨rfl, Or.inl ⟨rfl, rfl⟩⟩
  | cons line rest ih =>
    have same : SourceLine.text ⟨first, line.content⟩ = line.text := rfl
    rw [List.map_cons, numbered_cons, readLines, readLines, same]
    cases bindings.readLine line.text with
    | error fault => exact ⟨rfl, Or.inr ⟨0, line, fault, rfl, rfl, rfl⟩⟩
    | ok next =>
      obtain ⟨bound, course⟩ := ih next (first + 1)
      refine ⟨bound, ?_⟩
      rcases course with succeeded | ⟨i, bad, fault, found, failed, moved⟩
      · exact Or.inl succeeded
      · refine Or.inr ⟨i + 1, bad, fault, found, failed, ?_⟩
        rw [Nat.add_comm i, ← Nat.add_assoc]
        exact moved

end Bindings

namespace Session

theorem parse_eq (session : Session) (text : String) :
    session.parse text =
      ((Bindings.readLines ⟨session.initial, .empty⟩ (logicalLines text)).2.elim
        (.ok (Bindings.readLines ⟨session.initial, .empty⟩ (logicalLines text)).1.document) .error,
        { session with
          constants := (Bindings.readLines ⟨session.initial, .empty⟩ (logicalLines text)).1.constants }) :=
  parse_of_readLines rfl

/-- Comments make no difference but for the line of an error, which counts their lines too. -/
theorem parse_stripComments (session : Session) (text : String) :
    stripComments (stripComments text) = stripComments text ∧
      (logicalLines (stripComments text)).map SourceLine.text = (logicalLines text).map SourceLine.text ∧
      (logicalLines (stripComments text)).map SourceLine.number =
        List.range' 1 (logicalLines text).length ∧
      (session.parse (stripComments text)).2 = (session.parse text).2 ∧
      (∀ document, (session.parse (stripComments text)).1 = .ok document ↔
        (session.parse text).1 = .ok document) ∧
      ∀ j fault, (session.parse (stripComments text)).1 = .error ⟨j, fault⟩ ↔
        ∃ line, 1 ≤ j ∧ (logicalLines text)[j - 1]? = some line ∧
          (session.parse text).1 = .error ⟨line.number, fault⟩ := by
  have lines := logicalLines_stripComments text
  obtain ⟨bound, course⟩ :=
    Bindings.readLines_numbered ⟨session.initial, .empty⟩ 1 (logicalLines text)
  rw [← lines] at bound course
  refine ⟨stripComments_stripComments text, ?_, ?_, ?_, ?_, ?_⟩
  · have contents := congrArg (List.map SourceLine.content) lines
    rw [contents_numbered] at contents
    have texts (lines : List SourceLine) : lines.map SourceLine.text =
        (lines.map SourceLine.content).map Text.withoutTerminator := (List.map_map ..).symm
    rw [texts, texts, contents]
  · rw [lines, numbers_numbered, List.length_map]
  · rw [parse_eq, parse_eq, bound]
  · intro document
    rw [parse_eq, parse_eq, bound]
    rcases course with ⟨none, also⟩ | ⟨i, line, fault, _, failed, moved⟩
    · rw [none, also]
    · rw [failed, moved]
      simp only [Option.elim_some, reduceCtorEq]
  · intro j fault
    rw [parse_eq, parse_eq]
    rcases course with ⟨none, also⟩ | ⟨i, line, other, found, failed, moved⟩
    · rw [none, also]
      simp only [Option.elim_none, reduceCtorEq, and_false, exists_false]
    · rw [failed, moved]
      simp only [Option.elim_some, Except.error.injEq, ParseError.mk.injEq]
      constructor
      · rintro ⟨rfl, rfl⟩
        refine ⟨line, Nat.le_add_right 1 i, ?_, rfl, rfl⟩
        rw [Nat.add_sub_cancel_left]
        exact found
      · rintro ⟨bad, positive, at_, same, rfl⟩
        have place := eq_of_number_eq (logicalLines_pairwise text) found at_ same
        exact ⟨by omega, rfl⟩

end Session

end Settings
