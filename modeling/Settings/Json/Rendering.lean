import Settings.Json.Text
import Settings.Value

namespace Settings

/-- How JSON text is laid out: on one line without blanks, or with every item on a line of
its own. -/
inductive Layout
  | compact
  | pretty
  deriving DecidableEq, Repr

namespace Layout

/-- What stands between two items at a depth. Every level is indented by two blanks. -/
def lineBreak : Layout → Nat → List Char
  | compact, _ => []
  | pretty, depth => '\n' :: List.replicate (2 * depth) ' '

/-- What stands between a key and its value. -/
def colon : Layout → List Char
  | compact => [':']
  | pretty => [':', ' ']

/-- The parts of an array or object at a depth between its brackets. Without parts the
brackets stand together. -/
def enclose (layout : Layout) (depth : Nat) (first last : Char) : List (List Char) → List Char
  | [] => [first, last]
  | part :: parts =>
    let inner := layout.lineBreak (depth + 1)
    first :: inner ++ List.intercalate (',' :: inner) (part :: parts) ++ layout.lineBreak depth ++
      [last]

end Layout

namespace Value

mutual

/-- The JSON text of a value that stands at a depth. -/
def render (layout : Layout) (depth : Nat) : Value → List Char
  | string s => Json.quote s
  | number n => Json.number n
  | array items => layout.enclose depth '[' ']' (renderItems layout (depth + 1) items)

/-- The JSON texts of the items of an array. -/
def renderItems (layout : Layout) (depth : Nat) : List Value → List (List Char)
  | [] => []
  | v :: rest => render layout depth v :: renderItems layout depth rest

end

/-- The JSON text of a value on one line. -/
def toJson (v : Value) : String :=
  String.ofList (v.render .compact 0)

end Value

namespace Document

/-- An entry as a field of a JSON object. -/
def renderField (layout : Layout) (entry : String × Value) : List Char :=
  Json.quote entry.1 ++ layout.colon ++ entry.2.render layout 1

/-- The JSON text of a document, which is an object with the keys in their order. -/
def render (layout : Layout) (document : Document) : String :=
  String.ofList (layout.enclose 0 '{' '}' (document.entries.map (renderField layout)))

/-- The JSON text of a document with constants laid over it. -/
def renderWith (layout : Layout) (document : Document) (constants : Constants) : String :=
  render layout (document.merge constants)

end Document

end Settings
