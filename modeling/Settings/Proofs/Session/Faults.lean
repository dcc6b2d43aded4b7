import Settings.Proofs.Session.FailFast
import Settings.Proofs.Source.Blocks
import Settings.Proofs.Statement.Faults

namespace Settings

/-- The names that a line of a text can refer to: the constants that the text starts with and those that it
declares in front of the line, comments aside. -/
def KnownAt (start : Constants) (text : String) (number : Nat) (name : String) : Prop :=
  name ∈ start.keys ∨ ∃ earlier ∈ logicalLines text, earlier.number < number ∧
    ∃ value, Statement.Binds .define name value earlier.text

theorem Declares.mem_keys_iff {start constants : Constants} {lines : List SourceLine} {name : String}
    (declares : Declares start lines constants) :
    name ∈ constants.keys ↔ name ∈ start.keys ∨ ∃ line ∈ lines, ∃ value,
      Statement.Binds .define name value line.text := by
  have declared : name ∈ (declaredBy lines).map Prod.fst ↔ ∃ line ∈ lines, ∃ value,
      Statement.Binds .define name value line.text := by
    simp only [declaredBy, List.mem_map, List.mem_filterMap, Prod.exists, Statement.declared?_eq_some_iff,
      exists_and_right, exists_eq_right]
    constructor
    · rintro ⟨value, line, member, binds⟩
      exact ⟨line, member, value, binds⟩
    · rintro ⟨line, member, value, binds⟩
      exact ⟨value, line, member, binds⟩
  rw [declares.names, List.mem_append, List.mem_eraseDups, List.mem_filter, ← declared]
  by_cases old : name ∈ start.keys
  · exact iff_of_true (Or.inl old) (Or.inl old)
  · simp only [old, false_or, not_false_eq_true, decide_true, and_true]

namespace Bindings

/-- All that can be wrong with a line where some constants are bound. -/
theorem readLine_eq_error_cases {bindings : Bindings} {line : List Char} {fault : Fault}
    (failed : bindings.readLine line = .error fault) :
    Statement.ofLine line = .error fault ∨
      ∃ key text name, Statement.entered? line = some (key, text) ∧ Statement.referent? text = some name ∧
        bindings.constants.get? name = none ∧ fault = .undefinedConstant name := by
  rw [readLine] at failed
  cases said : Statement.ofLine line with
  | error wrong =>
    rw [said] at failed
    cases failed
    exact Or.inl rfl
  | ok statement =>
    rw [said] at failed
    rcases Statement.ofLine_eq_ok_cases said with ⟨_, rfl⟩ | ⟨_, _, _, _, _, rfl⟩ | ⟨_, _, _, _, _, _, rfl⟩ |
      ⟨key, text, name, enters, refers, rfl⟩
    · cases failed
    · cases failed
    · cases failed
    · change bindings.apply (.reference key name) = .error fault at failed
      rw [apply] at failed
      split at failed
      · cases failed
      · rename_i unbound
        cases failed
        exact Or.inr ⟨key, text, name, enters, refers, unbound, rfl⟩

theorem trueOf_of_readLine {bindings : Bindings} {line : List Char} {fault : Fault} {known : String → Prop}
    (bound : ∀ name, known name → name ∈ bindings.constants.keys)
    (failed : bindings.readLine line = .error fault) : fault.TrueOf known (Text.trim line) := by
  rcases readLine_eq_error_cases failed with wrong | ⟨key, text, name, enters, refers, unbound, rfl⟩
  · exact Statement.trueOf_of_ofLine known wrong
  · obtain ⟨inner, rfl, rfl⟩ := Statement.referent?_eq_some_iff.mp refers
    have binds := Statement.Binds.trim_iff.mpr (Statement.entered?_eq_some_iff.mp enters).1
    refine ⟨?_, ?_, key, inner, binds, rfl⟩
    · intro mentioned
      rw [Statement.entered?, if_pos (Statement.mentionsDefine_iff.mpr mentioned)] at enters
      cases enters
    · exact fun found => Table.get?_eq_none_iff.mp unbound (bound _ found)

end Bindings

namespace Session

/-- An error is about a line of the text that is in no comment block, and what it says is true of that line. -/
theorem parse_error_true {session next : Session} {text : String} {e : ParseError}
    (failed : session.parse text = (.error e, next)) :
    1 ≤ e.line ∧ e.line ≤ (sourceLines text.toList).length ∧ ¬ InBlock (sourceLines text.toList) e.line ∧
      ∃ line ∈ sourceLines text.toList, line.number = e.line ∧
        e.fault.TrueOf (KnownAt session.initial text e.line) (Text.trim line.content) := by
  obtain ⟨final, run, rfl⟩ := parse_eq_error_iff.mp failed
  obtain ⟨before, content, rest, fails⟩ := Bindings.exists_failsAt run
  obtain ⟨after, division⟩ := fails.kept
  have kept : SourceLine.mk e.line content ∈ logicalLines text := by
    rw [division]
    exact List.mem_append_right _ List.mem_cons_self
  rw [logicalLines_eq_filter, List.mem_filter] at kept
  obtain ⟨member, outside⟩ := kept
  have count : (sourceLines text.toList).length = before.length + (rest.length + 1) := by
    rw [sourceLines_eq_numbered, numbered, List.length_map, List.length_zipIdx, fails.division,
      List.length_append, List.length_cons]
  refine ⟨?_, ?_, of_decide_eq_true outside, _, member, rfl, ?_⟩
  · rw [fails.number]
    omega
  · rw [fails.number, count]
    omega
  · rw [← SourceLine.trim_text]
    refine Bindings.trueOf_of_readLine ?_ fails.faulty
    rintro name known
    rw [(Bindings.declares_of_readLines fails.succeeded).mem_keys_iff]
    refine known.imp_right ?_
    rintro ⟨earlier, inside, lower, value, binds⟩
    refine ⟨earlier, ?_, value, binds⟩
    rw [← fails.filter_eq]
    exact List.mem_filter.mpr ⟨inside, decide_eq_true lower⟩

/-- A bad element of an inner array, on a line behind a comment block. -/
theorem parse_error_true_nested :
    let text := "n := 1\n=begin\nn := 2\n=cut\na : { #[n] . 1 }\n"
    let session : Session := ⟨.empty, .accumulate⟩
    session.parse text = (.error ⟨5, .invalidLiteral "#[n]"⟩, ⟨Table.ofList [("n", .int 1)], .accumulate⟩) ∧
      ¬ InBlock (sourceLines text.toList) 5 ∧
      ∃ line ∈ sourceLines text.toList, line.number = 5 ∧
        (Fault.invalidLiteral "#[n]").TrueOf (KnownAt .empty text 5) (Text.trim line.content) := by
  intro text session
  have failed : session.parse text =
      (.error ⟨5, .invalidLiteral "#[n]"⟩, ⟨Table.ofList [("n", .int 1)], .accumulate⟩) := by
    dsimp only [text]
    with_unfolding_all rfl
  obtain ⟨-, -, outside, pointed⟩ := parse_error_true failed
  exact ⟨failed, outside, pointed⟩

end Session

end Settings
