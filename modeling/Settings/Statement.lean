import Settings.Error
import Settings.Literal.Reading
import Settings.Source
import Settings.Token
import Settings.Value

namespace Settings

/-- What one line of a settings text says. -/
inductive Statement
  /-- The constant `name` has the value from here on. -/
  | declaration (name : String) (value : Value)
  /-- The document has an entry with the value. -/
  | entry (key : String) (value : Value)
  /-- The document has an entry with the present value of the constant `name`. -/
  | reference (key name : String)
  deriving Repr

namespace Statement

/-- Whether the operator `:=` occurs anywhere in a text, be it inside quotes. -/
def mentionsDefine : List Char → Bool
  | ':' :: '=' :: _ => true
  | _ :: rest => mentionsDefine rest
  | [] => false

/-- The name before the operator of a text and the value text after it. The value text is
without blanks at its ends and must not be empty. -/
def binding? (operator : Token) (text : List Char) : Option (String × List Char) :=
  let (head, afterHead) := (Cursor.start text).next
  let (found, afterOperator) := afterHead.next
  let (value, _) := afterOperator.takeRest
  match head with
  | .ident name => if found = operator ∧ value ≠ [] then some (name, value) else none
  | _ => none

/-- The name that a value text such as `#[name]` refers to. Blanks around it do not count. -/
def referent? : List Char → Option String
  | '#' :: rest => (Text.enclosed? '[' ']' rest).map fun name => String.ofList (Text.trim name)
  | _ => none

/-- The literal that a value text holds. -/
def literal (text : List Char) : Except Fault Value :=
  (Literal.read text).mapError fun fragment => .invalidLiteral (String.ofList fragment)

/-- What a line says. A blank line says nothing. A line with `:=` has to be a declaration,
any other an entry, whose value is a reference or a literal. -/
def ofLine (line : List Char) : Except Fault (Option Statement) :=
  let text := Text.trim line
  if text = [] then .ok none
  else if mentionsDefine text then
    match binding? .define text with
    | none => .error (.malformedDeclaration (String.ofList text))
    | some (name, value) => (literal value).map fun v => some (.declaration name v)
  else
    match binding? .colon text with
    | none => .error (.malformedEntry (String.ofList text))
    | some (key, value) =>
      match referent? value with
      | some name => .ok (some (.reference key name))
      | none => (literal value).map fun v => some (.entry key v)

end Statement

/-- The value of a text that is a single literal. Blanks around it do not count, and an error
is always in the first line. -/
def parseValue (text : String) : Except ParseError Value :=
  (Statement.literal (Text.trim text.toList)).mapError fun fault => ⟨1, fault⟩

/-- What a text has bound so far. -/
structure Bindings where
  constants : Constants
  document : Document

namespace Bindings

/-- The bindings after a statement. A reference copies the value that the constant has now. -/
def apply (bindings : Bindings) : Statement → Except Fault Bindings
  | .declaration name v => .ok { bindings with constants := bindings.constants.insert name v }
  | .entry key v => .ok { bindings with document := bindings.document.insert key v }
  | .reference key name =>
    match bindings.constants.get? name with
    | some v => .ok { bindings with document := bindings.document.insert key v }
    | none => .error (.undefinedConstant name)

/-- The bindings after a line. -/
def readLine (bindings : Bindings) (line : List Char) : Except Fault Bindings :=
  (Statement.ofLine line).bind fun
    | none => .ok bindings
    | some statement => bindings.apply statement

/-- The bindings after lines, up to the first line with a fault, and the error if there is
such a line. -/
def readLines (bindings : Bindings) : List SourceLine → Bindings × Option ParseError
  | [] => (bindings, none)
  | line :: rest =>
    match bindings.readLine line.text with
    | .ok next => next.readLines rest
    | .error fault => (bindings, some ⟨line.number, fault⟩)

end Bindings

end Settings
