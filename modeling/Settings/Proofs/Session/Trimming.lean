import Settings.Proofs.Session.Run

namespace Settings

/-- The lines of a text without the blanks around them, as far as one of them has a visible character. -/
def trimmedLines (text : String) : List (List Char) :=
  ((text.toList.splitOn '\n').map Text.trim).rdropWhile (· = [])

/-- The parts between newlines are the lines, and a blank one more where the last line is ended. -/
theorem Text.map_trim_splitOn (text : List Char) :
    (text.splitOn '\n').map trim = (lines text).map trim ∨
      (text.splitOn '\n').map trim = (lines text).map trim ++ [[]] := by
  induction text using linewise with
  | last text absent =>
    rw [List.splitOn_eq_singleton absent]
    by_cases empty : text = []
    · subst empty
      exact Or.inr rfl
    · rw [lines_of_not_mem absent empty]
      exact Or.inl rfl
  | line body rest absent ih =>
    have newline : Blank ['\n'] := by decide
    rw [List.splitOn_append_cons_self_of_not_mem absent, lines_append_newline absent]
    simpa only [List.map_cons, trim_append_of_blank newline, List.cons_append, List.cons.injEq, true_and]
      using ih

/-- Behind its trimmed lines a text has only blank lines. -/
theorem exists_map_trim_lines (text : String) :
    ∃ blank, (∀ content ∈ blank, content = []) ∧
      (Text.lines text.toList).map Text.trim = trimmedLines text ++ blank := by
  have kept : trimmedLines text = ((Text.lines text.toList).map Text.trim).rdropWhile (· = []) := by
    rcases Text.map_trim_splitOn text.toList with same | more
    · rw [trimmedLines, same]
    · rw [trimmedLines, more, List.rdropWhile_concat_pos _ _ _ (by decide)]
  refine ⟨((Text.lines text.toList).map Text.trim).rtakeWhile (· = []), ?_, ?_⟩
  · intro content member
    have empty := List.mem_rtakeWhile_imp member
    exact of_decide_eq_true empty
  · rw [kept, List.rdropWhile, List.rtakeWhile, ← List.reverse_append, List.takeWhile_append_dropWhile,
      List.reverse_reverse]

/-- A blank line is no border of a comment, so those behind a text change nothing in front of them. -/
theorem exists_outsideComments_append {region : Region} {lines more : List SourceLine}
    (blank : ∀ line ∈ more, Text.trim line.content = []) :
    ∃ kept, kept.Sublist more ∧
      outsideComments region (lines ++ more) = outsideComments region lines ++ kept := by
  have endless : more.any SourceLine.closes = false := by
    rw [List.any_eq_false]
    intro line member
    simp [SourceLine.closes, blank line member]
  have reaches (rest : List SourceLine) :
      (rest ++ more).any SourceLine.closes = rest.any SourceLine.closes := by
    rw [List.any_append, endless, Bool.or_false]
  induction region, lines using blockwise with
  | nil region =>
    refine ⟨outsideComments region more, outsideComments_sublist region more, ?_⟩
    cases region <;> rfl
  | comment line rest ih =>
    rw [List.cons_append, outsideComments, outsideComments]
    exact ih
  | statement line rest opening ih =>
    obtain ⟨kept, part, shape⟩ := ih
    refine ⟨kept, part, ?_⟩
    rw [List.cons_append, outsideComments_statement opening, outsideComments_statement opening, shape,
      List.cons_append]
  | block line rest opening closing ih =>
    have closed := (reaches rest).trans closing
    rw [List.cons_append, outsideComments_block opening closing, outsideComments_block opening closed]
    exact ih
  | unclosed line rest opening closing =>
    have unclosed := (reaches rest).trans closing
    refine ⟨more, .refl more, ?_⟩
    rw [List.cons_append, outsideComments_unclosed opening closing, outsideComments_unclosed opening unclosed,
      List.cons_append]

namespace Bindings

theorem readLines_of_blank {lines : List SourceLine} (blank : ∀ line ∈ lines, Text.trim line.content = [])
    (bindings : Bindings) : bindings.readLines lines = (bindings, none) := by
  induction lines with
  | nil => rfl
  | cons line rest ih =>
    obtain ⟨here, later⟩ := List.forall_mem_cons.mp blank
    rw [readLines, readLine_of_blank (line.trim_text.trans here)]
    exact ih later

theorem readLines_append_blank {lines more : List SourceLine}
    (blank : ∀ line ∈ more, Text.trim line.content = []) (bindings : Bindings) :
    bindings.readLines (lines ++ more) = bindings.readLines lines := by
  induction lines generalizing bindings with
  | nil => exact readLines_of_blank blank bindings
  | cons line rest ih =>
    rw [List.cons_append, readLines, readLines]
    split
    · exact ih _
    · rfl

/-- Of a text only its trimmed lines are read. -/
theorem readLines_trimmedLines (text : String) (bindings : Bindings) :
    bindings.readLines (logicalLines text) =
      bindings.readLines (outsideComments .statements (numbered 1 (trimmedLines text))) := by
  obtain ⟨blank, empty, division⟩ := exists_map_trim_lines text
  have alike : List.Forall₂ (SourceLine.Alike 0) (sourceLines text.toList)
      (numbered 1 (trimmedLines text ++ blank)) := by
    rw [← division, sourceLines_eq_numbered]
    refine numbered_alike (List.forall₂_map_right_iff.mpr (List.forall₂_same.mpr ?_))
    exact fun content _ => Text.trim_trim content
  have trimmed := readLines_alike (outsideComments_alike alike .statements) bindings
  have unmoved (failure : Option ParseError) : failure.map (fun e => ⟨e.line + 0, e.fault⟩) = failure :=
    congrFun Option.map_id failure
  rw [unmoved] at trimmed
  have behind : ∀ line ∈ numbered (1 + (trimmedLines text).length) blank, Text.trim line.content = [] := by
    intro line member
    have inside : line.content ∈ blank := by
      rw [← contents_numbered _ blank]
      exact List.mem_map_of_mem member
    rw [empty line.content inside]
    rfl
  obtain ⟨kept, part, shape⟩ := exists_outsideComments_append behind
  rw [numbered_append, shape, readLines_append_blank fun line member => behind line (part.subset member)]
    at trimmed
  exact trimmed.symm

end Bindings

namespace Session

/-- Texts with the same trimmed lines are parsed alike: neither blanks around lines and behind the last of
them nor the way in which lines end make a difference. -/
theorem parse_congr {first second : String} (same : trimmedLines first = trimmedLines second)
    (session : Session) : session.parse first = session.parse second := by
  obtain ⟨⟨final, failure⟩, run⟩ : ∃ outcome,
      Bindings.readLines ⟨session.initial, .empty⟩ (logicalLines first) = outcome := ⟨_, rfl⟩
  have other := run
  rw [Bindings.readLines_trimmedLines, same, ← Bindings.readLines_trimmedLines] at other
  rw [parse_of_readLines run, parse_of_readLines other]

/-- Other indentation, carriage returns and blank lines at the end, with a comment and a bad line. -/
theorem parse_congr_carriageReturns :
    let first := "n := 1\n=begin\nn := 2\n=cut\na : #[n]\nb : ?"
    let second := "  n := 1\r\n\t=begin\r\nn := 2 \r\n=cut\u2003\r\na : #[n]\r\nb : ?\t\r\n\r\n \n"
    let session : Session := ⟨.empty, .accumulate⟩
    trimmedLines first = trimmedLines second ∧ session.parse second = session.parse first ∧
      session.parse first = (.error ⟨6, .invalidLiteral "?"⟩, ⟨Table.ofList [("n", .int 1)], .accumulate⟩) := by
  intro first second session
  have same : trimmedLines first = trimmedLines second := by
    decide +kernel
  have failed : session.parse first =
      (.error ⟨6, .invalidLiteral "?"⟩, ⟨Table.ofList [("n", .int 1)], .accumulate⟩) := by
    dsimp only [first]
    with_unfolding_all rfl
  exact ⟨same, (parse_congr same session).symm, failed⟩

end Session

end Settings
