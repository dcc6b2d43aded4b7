import Settings.Proofs.Session.Meaning

namespace Settings

/-- The first lines of a text. -/
def firstLines (count : Nat) (text : String) : String :=
  String.ofList ((Text.lines text.toList).take count).flatten

/-- A text with another one behind it on a new line. -/
def onNewLine (text more : String) : String :=
  if text = "" ∨ text.toList.getLast? = some '\n' then text ++ more else text ++ "\n" ++ more

theorem lines_firstLines {text : String} {before after : List (List Char)}
    (division : Text.lines text.toList = before ++ after) :
    Text.lines (firstLines before.length text).toList = before := by
  rw [firstLines, String.toList_ofList, Text.lines_flatten_of_sublist (List.take_sublist _ _), division,
    List.take_left]

theorem exists_lines_onNewLine {text : String} {before : List (List Char)} {line : List Char}
    (division : Text.lines text.toList = before ++ [line]) (more : String) :
    ∃ other rest, Text.lines (onNewLine text more).toList = before ++ other :: rest ∧
      Text.trim other = Text.trim line := by
  unfold onNewLine
  split
  · rename_i ended
    rcases ended with rfl | ended
    · cases before <;> cases division
    · obtain ⟨body, shape⟩ := List.getLast?_eq_some_iff.mp ended
      rw [shape] at division
      rw [String.toList_append, shape, List.append_assoc, List.singleton_append, Text.lines_append_line,
        division, List.append_assoc]
      exact ⟨line, Text.lines more.toList, rfl, rfl⟩
  · rw [String.toList_append, String.toList_append, List.append_assoc]
    exact Text.exists_lines_line division more.toList

namespace Bindings

variable {bindings final : Bindings} {text : String} {e : ParseError} {before rest : List (List Char)}
  {content : List Char}

/-- The bad line of a text and the lines in front of it, which are read without a fault. -/
structure FailsAt (bindings final : Bindings) (text : String) (e : ParseError)
    (before : List (List Char)) (content : List Char) (rest : List (List Char)) : Prop where
  division : Text.lines text.toList = before ++ content :: rest
  number : e.line = before.length + 1
  kept : ∃ after, logicalLines text =
    outsideComments .statements (numbered 1 before) ++ ⟨e.line, content⟩ :: after
  succeeded : bindings.readLines (outsideComments .statements (numbered 1 before)) = (final, none)
  faulty : final.readLine (SourceLine.text ⟨e.line, content⟩) = .error e.fault

theorem exists_failsAt (failed : bindings.readLines (logicalLines text) = (final, some e)) :
    ∃ before content rest, FailsAt bindings final text e before content rest := by
  obtain ⟨before, ⟨number, content⟩, after, division, succeeded, faulty, same⟩ :=
    exists_of_readLines_fault failed
  cases same
  have whole := division
  rw [logicalLines] at division
  obtain ⟨start, behind, lines, rfl, _⟩ :=
    exists_of_outsideComments division (not_opens_of_readLines succeeded)
  rw [sourceLines_eq_numbered] at lines
  obtain ⟨contents, rest, split, rfl, number⟩ := exists_of_numbered lines
  exact ⟨contents, content, rest, split, number.trans (Nat.add_comm 1 contents.length),
    ⟨after, whole⟩, succeeded, faulty⟩

theorem FailsAt.filter_eq (fails : FailsAt bindings final text e before content rest) :
    (logicalLines text).filter (·.number < e.line) =
      outsideComments .statements (numbered 1 before) := by
  obtain ⟨after, division⟩ := fails.kept
  exact filter_logicalLines division

/-- The lines in front of the bad line are a text of their own. -/
theorem FailsAt.readLines_firstLines (fails : FailsAt bindings final text e before content rest) :
    bindings.readLines (logicalLines (firstLines (e.line - 1) text)) = (final, none) := by
  rw [fails.number, Nat.add_sub_cancel, logicalLines, sourceLines_eq_numbered,
    lines_firstLines fails.division]
  exact fails.succeeded

/-- Lines behind the bad line are not looked at, unless it could open a comment block. -/
theorem FailsAt.readLines_onNewLine (fails : FailsAt bindings final text e before content rest)
    (statement : SourceLine.opens ⟨e.line, content⟩ = false) (more : String) :
    bindings.readLines (logicalLines (onNewLine (firstLines e.line text) more)) = (final, some e) := by
  have division : Text.lines text.toList = (before ++ [content]) ++ rest := by
    rw [fails.division, List.append_assoc, List.singleton_append]
  have front := lines_firstLines division
  rw [List.length_append, List.length_singleton, ← fails.number] at front
  obtain ⟨other, behind, split, trimmed⟩ := exists_lines_onNewLine front more
  have same : SourceLine.opens ⟨e.line, other⟩ = false := by
    rw [← statement, SourceLine.opens, SourceLine.opens, trimmed]
  have faulty : final.readLine (SourceLine.text ⟨e.line, other⟩) = .error e.fault := by
    have text : Text.trim (SourceLine.text ⟨e.line, other⟩) = Text.trim (SourceLine.text ⟨e.line, content⟩) := by
      rw [SourceLine.trim_text, SourceLine.trim_text, trimmed]
    rw [readLine_congr text, fails.faulty]
  have number : 1 + before.length = e.line := by
    rw [fails.number, Nat.add_comm]
  rw [logicalLines, sourceLines_eq_numbered, split, numbered_append, numbered_cons, number,
    outsideComments_statements_append (not_opens_of_readLines fails.succeeded),
    outsideComments_statement same]
  exact readLines_fault fails.succeeded faulty _

end Bindings

namespace Session

/-- The first bad line is where parsing ends: the lines in front of it have been parsed as a text of
their own, and what stands behind it makes no difference. -/
theorem parse_failFast {session next : Session} {text : String} {e : ParseError}
    (failed : session.parse text = (.error e, next)) :
    1 ≤ e.line ∧ e.line ≤ (sourceLines text.toList).length ∧
      (∃ document, session.parse (firstLines (e.line - 1) text) = (.ok document, next)) ∧
      Declares session.initial ((logicalLines text).filter (·.number < e.line)) next.constants ∧
      ((∀ line ∈ sourceLines text.toList, line.number = e.line → line.opens = false) →
        ∀ more, session.parse (onNewLine (firstLines e.line text) more) = (.error e, next)) := by
  obtain ⟨final, run, rfl⟩ := parse_eq_error_iff.mp failed
  obtain ⟨before, content, rest, fails⟩ := Bindings.exists_failsAt run
  have lines : sourceLines text.toList =
      numbered 1 before ++ ⟨e.line, content⟩ :: numbered (e.line + 1) rest := by
    rw [sourceLines_eq_numbered, fails.division, numbered_append, numbered_cons, fails.number,
      Nat.add_comm 1]
  refine ⟨?_, ?_, ?_, ?_, ?_⟩
  · rw [fails.number]
    omega
  · have length : (numbered 1 before).length = before.length := by
      rw [numbered, List.length_map, List.length_zipIdx]
    rw [lines, fails.number, List.length_append, length, List.length_cons]
    omega
  · exact ⟨final.document, parse_eq_ok_iff.mpr ⟨final.constants, fails.readLines_firstLines, rfl⟩⟩
  · rw [fails.filter_eq]
    exact Bindings.declares_of_readLines fails.succeeded
  · intro plain more
    have member : SourceLine.mk e.line content ∈ sourceLines text.toList := by
      rw [lines]
      exact List.mem_append_right _ List.mem_cons_self
    have statement := plain _ member rfl
    exact parse_eq_error_iff.mpr ⟨final, fails.readLines_onNewLine statement more, rfl⟩

/-- A reference to a constant of an earlier text, which the session forgets, and a comment block
behind it that another text opens again. -/
theorem parse_failFast_undefined :
    (Session.mk (Table.ofList [("k", .int 9)]) .reset).parse "n := 1\nb : #[k]\n=begin\n=cut" =
        (.error ⟨2, .undefinedConstant "k"⟩, ⟨Table.ofList [("n", .int 1)], .reset⟩) ∧
      (∃ document, (Session.mk (Table.ofList [("k", .int 9)]) .reset).parse
          (firstLines 1 "n := 1\nb : #[k]\n=begin\n=cut") =
        (.ok document, ⟨Table.ofList [("n", .int 1)], .reset⟩)) ∧
      (∀ line ∈ sourceLines "n := 1\nb : #[k]\n=begin\n=cut".toList,
        line.number = 2 → line.opens = false) ∧
      (Session.mk (Table.ofList [("k", .int 9)]) .reset).parse
          (onNewLine (firstLines 2 "n := 1\nb : #[k]\n=begin\n=cut") "=cut\nk := 1\n=begin") =
        (.error ⟨2, .undefinedConstant "k"⟩, ⟨Table.ofList [("n", .int 1)], .reset⟩) := by
  have failed : (Session.mk (Table.ofList [("k", .int 9)]) .reset).parse "n := 1\nb : #[k]\n=begin\n=cut" =
      (.error ⟨2, .undefinedConstant "k"⟩, ⟨Table.ofList [("n", .int 1)], .reset⟩) := by
    with_unfolding_all rfl
  have plain : ∀ line ∈ sourceLines "n := 1\nb : #[k]\n=begin\n=cut".toList,
      line.number = 2 → line.opens = false := by
    decide
  obtain ⟨_, _, truncated, _, continued⟩ := parse_failFast failed
  exact ⟨failed, truncated, plain, continued plain "=cut\nk := 1\n=begin"⟩

end Session

end Settings
