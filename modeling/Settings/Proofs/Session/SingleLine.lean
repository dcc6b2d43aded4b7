import Settings.Proofs.Literal.Ends
import Settings.Proofs.Session.Run

namespace Settings

theorem logicalLines_of_not_mem {text : String} (line : '\n' ∉ text.toList) (nonempty : text.toList ≠ []) :
    logicalLines text = [⟨1, text.toList⟩] := by
  rw [logicalLines, sourceLines_eq_numbered, Text.lines_of_not_mem line nonempty]
  change outsideComments .statements [⟨1, text.toList⟩] = _
  cases opening : SourceLine.opens ⟨1, text.toList⟩ with
  | false => exact outsideComments_statement opening []
  | true => exact outsideComments_unclosed opening rfl

/-- What a text of one line binds, and its error if it has a fault. -/
theorem Bindings.readLines_line {line : String} (single : '\n' ∉ line.toList) (bindings : Bindings) :
    bindings.readLines (logicalLines line) = match bindings.readLine line.toList with
      | .ok next => (next, none)
      | .error fault => (bindings, some ⟨1, fault⟩) := by
  by_cases empty : line.toList = []
  · rw [String.toList_eq_nil_iff.mp empty, readLine_of_blank (by rfl)]
    rfl
  · have same : Text.trim (SourceLine.text ⟨1, line.toList⟩) = Text.trim line.toList := SourceLine.trim_text _
    rw [logicalLines_of_not_mem single empty, readLines, readLine_congr same]
    rfl

namespace Session

open Statement (Binds)

variable {name : String} {value : List Char} {v : Value} {fault : Fault}

/-- The characters of a line that binds a name, with one blank on either side of the operator. -/
def bindingLine (operator : Token) (name : String) (value : List Char) : List Char :=
  name.toList ++ ([' '] ++ (operator.spelling ++ ([' '] ++ value)))

theorem binds_bindingLine {operator : Token} (identifier : IsIdentifier name) (trimmed : Text.trim value = value)
    (nonempty : value ≠ []) : Binds operator name value (bindingLine operator name value) := by
  have none : Text.Blank [] := by decide
  have blank : Text.Blank [' '] := by decide
  have alone : operator = .colon → ([' '] ++ value).head? ≠ some '=' := nofun
  have binds := Binds.intro none blank blank none identifier trimmed nonempty alone
  rw [List.append_nil, List.nil_append] at binds
  exact binds

/-- A text that is one line with a binding. -/
theorem parse_bindingLine {session : Session} {operator : Token} {text : String}
    (known : operator = .define ∨ operator = .colon) (identifier : IsIdentifier name) (line : '\n' ∉ value)
    (characters : text.toList = bindingLine operator name value) :
    session.parse text = match Bindings.readLine ⟨session.initial, .empty⟩ text.toList with
      | .ok final => (.ok final.document, { session with constants := final.constants })
      | .error fault => (.error ⟨1, fault⟩, { session with constants := session.initial }) := by
  have inName : '\n' ∉ name.toList := identifier.not_mem rfl
  have inOperator : '\n' ∉ operator.spelling := by rcases known with rfl | rfl <;> decide
  have single : '\n' ∉ text.toList := by
    rw [characters]
    simp [bindingLine, inName, inOperator, line]
  have run := Bindings.readLines_line single ⟨session.initial, .empty⟩
  cases read : Bindings.readLine ⟨session.initial, .empty⟩ text.toList <;>
  · rw [read] at run
    exact parse_of_readLines run

theorem toList_declaration (name : String) (value : List Char) :
    (name ++ " := " ++ String.ofList value).toList = bindingLine .define name value := by
  rw [String.toList_append, String.toList_append, List.append_assoc, @String.toList_ofList value]
  rfl

theorem toList_entry (name : String) (value : List Char) :
    (name ++ " : " ++ String.ofList value).toList = bindingLine .colon name value := by
  rw [String.toList_append, String.toList_append, List.append_assoc, @String.toList_ofList value]
  rfl

/-- A text that is the declaration of a constant. -/
theorem parse_declaration (session : Session) (identifier : IsIdentifier name) (line : '\n' ∉ value)
    (literal : Statement.literal value = .ok v) :
    session.parse (name ++ " := " ++ String.ofList value) =
      (.ok .empty, { session with constants := session.initial.insert name v }) := by
  have characters := toList_declaration name value
  have denotes := Statement.literal_eq_ok_iff.mp literal
  have declares := Statement.declared?_eq_some_iff.mpr
    (binds_bindingLine identifier denotes.trim_eq denotes.ne_nil)
  rw [parse_bindingLine (Or.inl rfl) identifier line characters, characters,
    Bindings.readLine_of_declared? declares literal]

/-- A text that is an entry with a literal. -/
theorem parse_entry (session : Session) (identifier : IsIdentifier name) (line : '\n' ∉ value)
    (undefined : ¬ [':', '='] <:+: value) (literal : Statement.literal value = .ok v) :
    session.parse (name ++ " : " ++ String.ofList value) =
      (.ok (Table.empty.insert name v), { session with constants := session.initial }) := by
  have characters := toList_entry name value
  have denotes := Statement.literal_eq_ok_iff.mp literal
  have enters := Statement.entered?_eq_some_iff.mpr
    ⟨binds_bindingLine identifier denotes.trim_eq denotes.ne_nil, undefined⟩
  have stands : Statement.valueWith session.initial.get? value = some v := by
    rw [Statement.valueWith, Statement.referent?_of_literal literal, literal]
    rfl
  rw [parse_bindingLine (Or.inr rfl) identifier line characters, characters,
    Bindings.readLine_of_entered? enters stands]

/-- A text that is an entry with neither a literal nor a reference. -/
theorem parse_badEntry (session : Session) (identifier : IsIdentifier name) (line : '\n' ∉ value)
    (trimmed : Text.trim value = value) (nonempty : value ≠ []) (undefined : ¬ [':', '='] <:+: value)
    (plain : Statement.referent? value = none) (bad : Statement.literal value = .error fault) :
    session.parse (name ++ " : " ++ String.ofList value) =
      (.error ⟨1, fault⟩, { session with constants := session.initial }) := by
  have characters := toList_entry name value
  have enters := Statement.entered?_eq_some_iff.mpr ⟨binds_bindingLine identifier trimmed nonempty, undefined⟩
  have read : Bindings.readLine ⟨session.initial, .empty⟩ (bindingLine .colon name value) = .error fault := by
    rw [Bindings.readLine, (Statement.ofLine_of_entered? enters).2 plain, bad]
    rfl
  rw [parse_bindingLine (Or.inr rfl) identifier line characters, characters, read]

end Session

end Settings
