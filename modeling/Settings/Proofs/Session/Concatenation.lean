import Settings.Proofs.Session.Run

namespace Settings

namespace Bindings

/-- A newline at the end of a text makes no difference. Either it ends the last line, or the line
that it adds is blank. -/
theorem readLines_newline {bindings final : Bindings} {text : List Char}
    (succeeded : bindings.readLines (outsideComments .statements (sourceLines text)) = (final, none)) :
    bindings.readLines (outsideComments .statements (sourceLines (text ++ ['\n']))) = (final, none) := by
  rw [sourceLines_eq_numbered] at succeeded ⊢
  rcases Text.lines_newline text with blank | ⟨before, last, division, ended⟩
  · have kept := not_opens_of_readLines succeeded
    rw [blank, numbered_append, outsideComments_statements_append kept, readLines_append succeeded]
    rfl
  · rw [division] at succeeded
    rw [ended]
    have newline : Text.Blank ['\n'] := by decide
    have trimmed : List.Forall₂ (fun content other => Text.trim other = Text.trim content)
        (before ++ [last]) (before ++ [last ++ ['\n']]) := by
      have front : List.Forall₂ (fun content other => Text.trim other = Text.trim content) before before :=
        List.forall₂_same.mpr fun _ _ => rfl
      exact List.rel_append front (.cons (Text.trim_append_of_blank newline) .nil)
    have alike : List.Forall₂ (SourceLine.Alike 0) (numbered 1 (before ++ [last]))
        (numbered 1 (before ++ [last ++ ['\n']])) := numbered_alike trimmed
    have same := readLines_alike (outsideComments_alike alike .statements) bindings
    rw [succeeded] at same
    exact same

/-- Lines behind a text without a fault are read as in a text of their own, with the bindings that
the text in front leaves. -/
theorem readLines_concatenation {bindings middle : Bindings} {first : String}
    (succeeded : bindings.readLines (logicalLines first) = (middle, none)) (second : String) :
    bindings.readLines (logicalLines (first ++ "\n" ++ second)) =
      ((middle.readLines (logicalLines second)).1,
        (middle.readLines (logicalLines second)).2.map
          fun e => ⟨e.line + (first.toList.count '\n' + 1), e.fault⟩) := by
  have front := readLines_newline succeeded
  -- No block of the first text can be open at its end, for the opening line would be a fault.
  have kept := not_opens_of_readLines front
  have split : sourceLines (first ++ "\n" ++ second).toList =
      sourceLines (first.toList ++ ['\n']) ++
        numbered (1 + (first.toList.count '\n' + 1)) (Text.lines second.toList) := by
    have characters : (first ++ "\n" ++ second).toList = first.toList ++ '\n' :: second.toList := by
      rw [String.toList_append, String.toList_append, List.append_assoc]
      rfl
    rw [sourceLines_eq_numbered, sourceLines_eq_numbered, characters, Text.lines_append_line,
      numbered_append, Text.length_lines_newline]
  have alike : List.Forall₂ (SourceLine.Alike (first.toList.count '\n' + 1))
      (sourceLines second.toList)
      (numbered (1 + (first.toList.count '\n' + 1)) (Text.lines second.toList)) :=
    numbered_alike (List.forall₂_same.mpr fun _ _ => rfl)
  rw [logicalLines, split, outsideComments_statements_append kept, readLines_append front]
  exact readLines_alike (outsideComments_alike alike .statements) middle

end Bindings

namespace Session

/-- Where constants stay, two texts can be parsed as one. -/
theorem parse_concatenation {session middle : Session} {first second : String} {document : Document}
    (policy : session.policy = .accumulate) (parsed : session.parse first = (.ok document, middle)) :
    (∀ later last, middle.parse second = (.ok later, last) →
      session.parse (first ++ "\n" ++ second) = (.ok (document.merge later), last)) ∧
    (∀ e last, middle.parse second = (.error e, last) →
      session.parse (first ++ "\n" ++ second) =
        (.error ⟨e.line + (first.toList.count '\n' + 1), e.fault⟩, last)) := by
  obtain ⟨constants, run, rfl⟩ := parse_eq_ok_iff.mp parsed
  have whole := Bindings.readLines_concatenation run second
  have below : (⟨constants, document⟩ : Bindings) = (⟨constants, .empty⟩ : Bindings).onto document := rfl
  rw [below, Bindings.readLines_onto] at whole
  have start : ({ session with constants := constants } : Session).initial = constants :=
    initial_of_accumulate policy
  constructor
  · intro later last succeeded
    obtain ⟨final, behind, rfl⟩ := parse_eq_ok_iff.mp succeeded
    rw [start] at behind
    rw [behind] at whole
    exact parse_eq_ok_iff.mpr ⟨final, whole, rfl⟩
  · intro e last failed
    obtain ⟨final, behind, rfl⟩ := parse_eq_error_iff.mp failed
    rw [start] at behind
    rw [behind] at whole
    exact parse_eq_error_iff.mpr ⟨final.onto document, whole, rfl⟩

/-- A text whose last line lacks its newline, with a text that refers back to it, and with one whose
second line is bad. -/
theorem parse_concatenation_without_newline :
    (Session.mk .empty .accumulate).parse "n := 1\nb : 0\na : #[n]" =
        (.ok (Table.ofList [("b", .int 0), ("a", .int 1)]), ⟨Table.ofList [("n", .int 1)], .accumulate⟩) ∧
      (Session.mk (Table.ofList [("n", .int 1)]) .accumulate).parse "c : #[n]\nb : 2" =
        (.ok (Table.ofList [("c", .int 1), ("b", .int 2)]), ⟨Table.ofList [("n", .int 1)], .accumulate⟩) ∧
      (Session.mk .empty .accumulate).parse ("n := 1\nb : 0\na : #[n]" ++ "\n" ++ "c : #[n]\nb : 2") =
        (.ok (Table.ofList [("b", .int 2), ("a", .int 1), ("c", .int 1)]),
          ⟨Table.ofList [("n", .int 1)], .accumulate⟩) ∧
      (Session.mk (Table.ofList [("n", .int 1)]) .accumulate).parse "n := 2\n=cut" =
        (.error ⟨2, .malformedEntry "=cut"⟩, ⟨Table.ofList [("n", .int 2)], .accumulate⟩) ∧
      (Session.mk .empty .accumulate).parse ("n := 1\nb : 0\na : #[n]" ++ "\n" ++ "n := 2\n=cut") =
        (.error ⟨5, .malformedEntry "=cut"⟩, ⟨Table.ofList [("n", .int 2)], .accumulate⟩) := by
  have parsed : (Session.mk .empty .accumulate).parse "n := 1\nb : 0\na : #[n]" =
      (.ok (Table.ofList [("b", .int 0), ("a", .int 1)]), ⟨Table.ofList [("n", .int 1)], .accumulate⟩) := by
    with_unfolding_all rfl
  have succeeded : (Session.mk (Table.ofList [("n", .int 1)]) .accumulate).parse "c : #[n]\nb : 2" =
      (.ok (Table.ofList [("c", .int 1), ("b", .int 2)]), ⟨Table.ofList [("n", .int 1)], .accumulate⟩) := by
    with_unfolding_all rfl
  have failed : (Session.mk (Table.ofList [("n", .int 1)]) .accumulate).parse "n := 2\n=cut" =
      (.error ⟨2, .malformedEntry "=cut"⟩, ⟨Table.ofList [("n", .int 2)], .accumulate⟩) := by
    with_unfolding_all rfl
  have merged := (parse_concatenation rfl parsed).1 _ _ succeeded
  have moved := (parse_concatenation rfl parsed).2 _ _ failed
  exact ⟨parsed, succeeded, merged, failed, moved⟩

end Session

end Settings
