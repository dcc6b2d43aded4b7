import Settings.Proofs.Except.Results
import Settings.Proofs.Source.Comments
import Settings.Proofs.Statement.Binding
import Settings.Proofs.Table.Insertion
import Settings.Session

namespace Settings

namespace Statement

/-- The name and the value text of a line that declares a constant. -/
def declared? (line : List Char) : Option (String × List Char) :=
  if mentionsDefine (Text.trim line) then binding? .define (Text.trim line) else none

/-- The key and the value text of a line that makes an entry. -/
def entered? (line : List Char) : Option (String × List Char) :=
  if mentionsDefine (Text.trim line) then none else binding? .colon (Text.trim line)

/-- What the value text of an entry stands for where the constants are as given. -/
def valueWith (constant : String → Option Value) (text : List Char) : Option Value :=
  match referent? text with
  | some name => constant name
  | none => (literal text).toOption

/-- A line declares a constant just if it binds the name with `:=`. -/
theorem declared?_eq_some_iff {line value : List Char} {name : String} :
    declared? line = some (name, value) ↔ Binds .define name value line := by
  rw [declared?]
  split
  · rw [binding?_eq_some_iff (Or.inl rfl), Binds.trim_iff]
  · rename_i unmentioned
    exact iff_of_false nofun fun binds => unmentioned binds.mentionsDefine

/-- A line makes an entry just if it binds the key with a colon and its value text is without `:=`. -/
theorem entered?_eq_some_iff {line value : List Char} {key : String} :
    entered? line = some (key, value) ↔ Binds .colon key value line ∧ ¬ [':', '='] <:+: value := by
  have unmentioned (binds : Binds .colon key value line) :
      mentionsDefine (Text.trim line) = true ↔ [':', '='] <:+: value :=
    binds.mentionsDefine_colon_iff.trans mentionsDefine_iff
  rw [entered?]
  split
  · rename_i mentioned
    exact iff_of_false nofun fun enters => enters.2 ((unmentioned enters.1).mp mentioned)
  · rename_i other
    rw [binding?_eq_some_iff (Or.inr rfl), Binds.trim_iff]
    exact ⟨fun binds => ⟨binds, mt (unmentioned binds).mpr other⟩, And.left⟩

theorem declared?_of_blank {line : List Char} (blank : Text.trim line = []) :
    declared? line = none := by
  rw [declared?, blank]
  rfl

theorem entered?_of_blank {line : List Char} (blank : Text.trim line = []) :
    entered? line = none := by
  rw [entered?, blank]
  rfl

theorem entered?_of_declared? {line : List Char} {binding : String × List Char}
    (declares : declared? line = some binding) : entered? line = none := by
  rw [declared?] at declares
  split at declares
  · rename_i mentioned
    rw [entered?, if_pos mentioned]
  · cases declares

theorem declared?_of_entered? {line : List Char} {binding : String × List Char}
    (enters : entered? line = some binding) : declared? line = none := by
  rw [entered?] at enters
  split at enters
  · cases enters
  · rename_i unmentioned
    rw [declared?, if_neg unmentioned]

theorem ofLine_congr {line other : List Char} (same : Text.trim line = Text.trim other) :
    ofLine line = ofLine other := by
  rw [ofLine, ofLine, same]

theorem ofLine_of_declared? {line text : List Char} {name : String}
    (declares : declared? line = some (name, text)) :
    ofLine line = (literal text).map fun v => some (.declaration name v) := by
  have shown : Text.trim line ≠ [] := by
    intro blank
    rw [declared?_of_blank blank] at declares
    cases declares
  rw [declared?] at declares
  split at declares
  · rename_i mentioned
    rw [ofLine, if_neg shown, if_pos mentioned, declares]
  · cases declares

theorem ofLine_of_entered? {line text : List Char} {key : String}
    (enters : entered? line = some (key, text)) :
    (∀ name, referent? text = some name → ofLine line = .ok (some (.reference key name))) ∧
      (referent? text = none → ofLine line = (literal text).map fun v => some (.entry key v)) := by
  have shown : Text.trim line ≠ [] := by
    intro blank
    rw [entered?_of_blank blank] at enters
    cases enters
  rw [entered?] at enters
  split at enters
  · cases enters
  · rename_i unmentioned
    rw [ofLine, if_neg shown, if_neg unmentioned, enters]
    constructor
    · intro name refers
      simp only [refers]
    · intro plain
      simp only [plain]

/-- All that a line without a fault can say. -/
theorem ofLine_eq_ok_cases {line : List Char} {said : Option Statement}
    (accepted : ofLine line = .ok said) :
    Text.trim line = [] ∧ said = none ∨
      (∃ name text v, declared? line = some (name, text) ∧ literal text = .ok v ∧
        said = some (.declaration name v)) ∨
      (∃ key text v, entered? line = some (key, text) ∧ referent? text = none ∧
        literal text = .ok v ∧ said = some (.entry key v)) ∨
      ∃ key text name, entered? line = some (key, text) ∧ referent? text = some name ∧
        said = some (.reference key name) := by
  rw [ofLine] at accepted
  split at accepted
  · rename_i blank
    cases accepted
    exact Or.inl ⟨blank, rfl⟩
  split at accepted
  · rename_i mentioned
    split at accepted
    · cases accepted
    · rename_i name text bound
      have declares : declared? line = some (name, text) := by rw [declared?, if_pos mentioned, bound]
      obtain ⟨v, value, rfl⟩ := map_eq_ok_iff.mp accepted
      exact Or.inr (Or.inl ⟨name, text, v, declares, value, rfl⟩)
  · rename_i unmentioned
    split at accepted
    · cases accepted
    · rename_i key text bound
      have enters : entered? line = some (key, text) := by rw [entered?, if_neg unmentioned, bound]
      split at accepted
      · rename_i name refers
        cases accepted
        exact Or.inr (Or.inr (Or.inr ⟨key, text, name, enters, refers, rfl⟩))
      · rename_i plain
        obtain ⟨v, value, rfl⟩ := map_eq_ok_iff.mp accepted
        exact Or.inr (Or.inr (Or.inl ⟨key, text, v, enters, plain, value, rfl⟩))

end Statement

namespace Bindings

theorem readLine_congr {line other : List Char} (same : Text.trim line = Text.trim other)
    (bindings : Bindings) : bindings.readLine line = bindings.readLine other := by
  rw [readLine, readLine, Statement.ofLine_congr same]

theorem readLine_of_blank {line : List Char} (blank : Text.trim line = []) (bindings : Bindings) :
    bindings.readLine line = .ok bindings := by
  rw [readLine, Statement.ofLine, if_pos blank]
  rfl

theorem readLine_of_declared? {line text : List Char} {name : String} {v : Value}
    (declares : Statement.declared? line = some (name, text)) (value : Statement.literal text = .ok v)
    (bindings : Bindings) :
    bindings.readLine line = .ok ⟨bindings.constants.insert name v, bindings.document⟩ := by
  rw [readLine, Statement.ofLine_of_declared? declares, value]
  rfl

theorem readLine_of_entered? {bindings : Bindings} {line text : List Char} {key : String} {v : Value}
    (enters : Statement.entered? line = some (key, text))
    (value : Statement.valueWith bindings.constants.get? text = some v) :
    bindings.readLine line = .ok ⟨bindings.constants, bindings.document.insert key v⟩ := by
  obtain ⟨reference, entry⟩ := Statement.ofLine_of_entered? enters
  rw [Statement.valueWith] at value
  cases refers : Statement.referent? text with
  | some name =>
    rw [refers] at value
    change bindings.constants.get? name = some v at value
    rw [readLine, reference name refers]
    change bindings.apply (.reference key name) = _
    rw [apply, value]
  | none =>
    rw [refers] at value
    rw [readLine, entry refers]
    cases literal : Statement.literal text with
    | error fault =>
      rw [literal] at value
      cases value
    | ok w =>
      rw [literal] at value
      cases value
      rfl

/-- All that a line without a fault can do. -/
theorem readLine_eq_ok_cases {bindings next : Bindings} {line : List Char}
    (accepted : bindings.readLine line = .ok next) :
    Text.trim line = [] ∧ next = bindings ∨
      (∃ name text v, Statement.declared? line = some (name, text) ∧
        Statement.literal text = .ok v ∧
        next = ⟨bindings.constants.insert name v, bindings.document⟩) ∨
      ∃ key text v, Statement.entered? line = some (key, text) ∧
        Statement.valueWith bindings.constants.get? text = some v ∧
        next = ⟨bindings.constants, bindings.document.insert key v⟩ := by
  rw [readLine] at accepted
  cases said : Statement.ofLine line with
  | error fault =>
    rw [said] at accepted
    cases accepted
  | ok statement =>
    rw [said] at accepted
    rcases Statement.ofLine_eq_ok_cases said with ⟨blank, rfl⟩ |
      ⟨name, text, v, declares, value, rfl⟩ | ⟨key, text, v, enters, plain, value, rfl⟩ |
      ⟨key, text, name, enters, refers, rfl⟩
    · cases accepted
      exact Or.inl ⟨blank, rfl⟩
    · cases accepted
      exact Or.inr (Or.inl ⟨name, text, v, declares, value, rfl⟩)
    · cases accepted
      refine Or.inr (Or.inr ⟨key, text, v, enters, ?_, rfl⟩)
      rw [Statement.valueWith, plain, value]
      rfl
    · change bindings.apply (.reference key name) = .ok next at accepted
      rw [apply] at accepted
      split at accepted
      · rename_i v bound
        cases accepted
        refine Or.inr (Or.inr ⟨key, text, v, enters, ?_, rfl⟩)
        rw [Statement.valueWith, refers]
        exact bound
      · cases accepted

/-- The same bindings with the entries of an earlier text below them. -/
def onto (lower : Document) (bindings : Bindings) : Bindings :=
  ⟨bindings.constants, lower.merge bindings.document⟩

theorem insert_onto (lower : Document) (bindings : Bindings) (key : String) (v : Value) :
    (⟨bindings.constants, (bindings.onto lower).document.insert key v⟩ : Bindings) =
      onto lower ⟨bindings.constants, bindings.document.insert key v⟩ := by
  rw [onto, onto, Table.merge_insert]

/-- Earlier entries have no part in what a statement does. -/
theorem apply_onto (lower : Document) (bindings : Bindings) (statement : Statement) :
    (bindings.onto lower).apply statement = (bindings.apply statement).map (onto lower) := by
  cases statement with
  | declaration name v => rfl
  | entry key v => exact congrArg Except.ok (insert_onto lower bindings key v)
  | reference key name =>
    have same : (bindings.onto lower).constants = bindings.constants := rfl
    rw [apply, apply, same]
    cases bindings.constants.get? name with
    | none => rfl
    | some v => exact congrArg Except.ok (insert_onto lower bindings key v)

theorem readLine_onto (lower : Document) (bindings : Bindings) (line : List Char) :
    (bindings.onto lower).readLine line = (bindings.readLine line).map (onto lower) := by
  rw [readLine, readLine]
  cases Statement.ofLine line with
  | error fault => rfl
  | ok said =>
    cases said with
    | none => rfl
    | some statement => exact apply_onto lower bindings statement

theorem readLines_onto (lower : Document) (bindings : Bindings) (lines : List SourceLine) :
    (bindings.onto lower).readLines lines =
      ((bindings.readLines lines).1.onto lower, (bindings.readLines lines).2) := by
  induction lines generalizing bindings with
  | nil => rfl
  | cons line rest ih =>
    rw [readLines, readLines, readLine_onto]
    cases bindings.readLine line.text with
    | error fault => rfl
    | ok next => exact ih next

/-- Moving lines further down moves the error, and what they bind stays. -/
theorem readLines_alike {offset : Nat} {lines others : List SourceLine}
    (alike : List.Forall₂ (SourceLine.Alike offset) lines others) (bindings : Bindings) :
    bindings.readLines others = ((bindings.readLines lines).1,
      (bindings.readLines lines).2.map fun e => ⟨e.line + offset, e.fault⟩) := by
  induction alike generalizing bindings with
  | nil => rfl
  | @cons line other _ _ first _ ih =>
    have same : Text.trim other.text = Text.trim line.text := by
      rw [SourceLine.trim_text, SourceLine.trim_text, first.trimmed]
    rw [readLines, readLines, readLine_congr same]
    cases bindings.readLine line.text with
    | error fault =>
      rw [first.number]
      rfl
    | ok next => exact ih next

/-- The opening line of a comment block is no statement. -/
theorem readLine_of_opens {line : SourceLine} (opening : line.opens = true) (bindings : Bindings) :
    bindings.readLine line.text = .error (.malformedEntry "=begin") := by
  have trimmed : Text.trim line.text = Text.trim "=begin".toList := by
    rw [SourceLine.trim_text]
    exact of_decide_eq_true opening
  rw [readLine_congr trimmed]
  rfl

theorem readLines_eq_ok_cons {bindings final : Bindings} {line : SourceLine} {rest : List SourceLine}
    (succeeded : bindings.readLines (line :: rest) = (final, none)) :
    ∃ next, bindings.readLine line.text = .ok next ∧ next.readLines rest = (final, none) := by
  rw [readLines] at succeeded
  cases read : bindings.readLine line.text with
  | error fault =>
    rw [read] at succeeded
    cases succeeded
  | ok next =>
    rw [read] at succeeded
    exact ⟨next, rfl, succeeded⟩

theorem not_opens_of_readLines {bindings final : Bindings} {lines : List SourceLine}
    (succeeded : bindings.readLines lines = (final, none)) : ∀ line ∈ lines, line.opens = false := by
  induction lines generalizing bindings with
  | nil => exact fun _ member => absurd member List.not_mem_nil
  | cons line rest ih =>
    obtain ⟨next, read, later⟩ := readLines_eq_ok_cons succeeded
    intro other member
    rcases List.mem_cons.mp member with rfl | behind
    · cases opening : other.opens with
      | false => rfl
      | true =>
        rw [readLine_of_opens opening] at read
        cases read
    · exact ih later other behind

theorem readLines_append {bindings next : Bindings} {first : List SourceLine}
    (succeeded : bindings.readLines first = (next, none)) (second : List SourceLine) :
    bindings.readLines (first ++ second) = next.readLines second := by
  induction first generalizing bindings with
  | nil =>
    cases succeeded
    rfl
  | cons line rest ih =>
    obtain ⟨between, read, later⟩ := readLines_eq_ok_cons succeeded
    rw [List.cons_append, readLines, read]
    exact ih later

theorem exists_of_readLines_append {bindings final : Bindings} {first second : List SourceLine}
    (succeeded : bindings.readLines (first ++ second) = (final, none)) :
    ∃ next, bindings.readLines first = (next, none) ∧ next.readLines second = (final, none) := by
  induction first generalizing bindings with
  | nil => exact ⟨bindings, rfl, succeeded⟩
  | cons line rest ih =>
    obtain ⟨between, read, later⟩ := readLines_eq_ok_cons succeeded
    obtain ⟨next, front, back⟩ := ih later
    refine ⟨next, ?_, back⟩
    rw [readLines, read]
    exact front

/-- Parsing stops at the first line with a fault, and what the lines in front of it have bound
stays. -/
theorem exists_of_readLines_fault {bindings final : Bindings} {lines : List SourceLine}
    {e : ParseError} (failed : bindings.readLines lines = (final, some e)) :
    ∃ before line after, lines = before ++ line :: after ∧
      bindings.readLines before = (final, none) ∧ final.readLine line.text = .error e.fault ∧
      e.line = line.number := by
  induction lines generalizing bindings with
  | nil => cases failed
  | cons line rest ih =>
    rw [readLines] at failed
    cases read : bindings.readLine line.text with
    | error fault =>
      rw [read] at failed
      cases failed
      exact ⟨[], line, rest, rfl, rfl, read, rfl⟩
    | ok next =>
      rw [read] at failed
      obtain ⟨before, bad, after, rfl, succeeded, faulty, number⟩ := ih failed
      refine ⟨line :: before, bad, after, rfl, ?_, faulty, number⟩
      rw [readLines, read]
      exact succeeded

theorem readLines_fault {bindings final : Bindings} {before : List SourceLine} {line : SourceLine}
    {fault : Fault} (succeeded : bindings.readLines before = (final, none))
    (faulty : final.readLine line.text = .error fault) (after : List SourceLine) :
    bindings.readLines (before ++ line :: after) = (final, some ⟨line.number, fault⟩) := by
  rw [readLines_append succeeded, readLines, faulty]

end Bindings

namespace Session

/-- The constants that a text starts with. -/
def initial (session : Session) : Constants :=
  match session.policy with
  | .accumulate => session.constants
  | .reset => .empty

theorem initial_of_accumulate {session : Session} (policy : session.policy = .accumulate) :
    session.initial = session.constants := by
  rw [initial, policy]

theorem parse_of_readLines {session : Session} {text : String} {final : Bindings}
    {failure : Option ParseError}
    (run : Bindings.readLines ⟨session.initial, .empty⟩ (logicalLines text) = (final, failure)) :
    session.parse text = (failure.elim (.ok final.document) .error,
      { session with constants := final.constants }) := by
  unfold initial at run
  cases policy : session.policy with
  | accumulate =>
    rw [policy] at run
    simp only [parse, policy, run]
    cases failure <;> rfl
  | reset =>
    rw [policy] at run
    simp only [parse, policy, run]
    cases failure <;> rfl

theorem parse_eq_ok_iff {session next : Session} {text : String} {document : Document} :
    session.parse text = (.ok document, next) ↔ ∃ constants,
      Bindings.readLines ⟨session.initial, .empty⟩ (logicalLines text) = (⟨constants, document⟩, none) ∧
        next = { session with constants := constants } := by
  obtain ⟨⟨final, failure⟩, run⟩ : ∃ outcome,
      Bindings.readLines ⟨session.initial, .empty⟩ (logicalLines text) = outcome := ⟨_, rfl⟩
  rw [parse_of_readLines run, run]
  constructor
  · intro same
    cases failure <;> cases same
    exact ⟨final.constants, rfl, rfl⟩
  · rintro ⟨constants, same, rfl⟩
    cases same
    rfl

theorem parse_eq_error_iff {session next : Session} {text : String} {e : ParseError} :
    session.parse text = (.error e, next) ↔ ∃ final,
      Bindings.readLines ⟨session.initial, .empty⟩ (logicalLines text) = (final, some e) ∧
        next = { session with constants := final.constants } := by
  obtain ⟨⟨final, failure⟩, run⟩ : ∃ outcome,
      Bindings.readLines ⟨session.initial, .empty⟩ (logicalLines text) = outcome := ⟨_, rfl⟩
  rw [parse_of_readLines run, run]
  constructor
  · intro same
    cases failure <;> cases same
    exact ⟨final, rfl, rfl⟩
  · rintro ⟨other, same, rfl⟩
    cases same
    rfl

end Session

end Settings
