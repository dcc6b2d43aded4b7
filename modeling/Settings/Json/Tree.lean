import Settings.Json.Text
import Settings.Value

namespace Settings

/-- A JSON value. Its floats are finite. -/
inductive Json
  | null
  | int (n : Int64)
  | float (negative : Bool) (code : Fin Format.binary64.infinityCode)
  | string (s : String)
  | array (items : List Json)
  | object (fields : List (String × Json))

namespace Json

mutual

/-- A value as JSON. A float that is not finite becomes `null`. -/
def ofValue : Value → Json
  | .string s => string s
  | .number (.int n) => int n
  | .number (.float (.finite negative code)) => float negative code
  | .number (.float _) => null
  | .array items => array (ofItems items)

/-- The items of an array as JSON. -/
def ofItems : List Value → List Json
  | [] => []
  | v :: rest => ofValue v :: ofItems rest

end

/-- A document as a JSON object with the keys in their order. -/
def ofDocument (document : Document) : Json :=
  object (document.entries.map fun (key, v) => (key, ofValue v))

mutual

/-- The text of a JSON value on one line without blanks. -/
def print : Json → List Char
  | null => "null".toList
  | int n => Text.ofInt n.toInt
  | float negative code => finiteFloat negative code
  | string s => quote s
  | array items => '[' :: printItems items ++ [']']
  | object fields => '{' :: printFields fields ++ ['}']

/-- The items of an array with commas between them. -/
def printItems : List Json → List Char
  | [] => []
  | [item] => print item
  | item :: rest => print item ++ ',' :: printItems rest

/-- The fields of an object with commas between them. -/
def printFields : List (String × Json) → List Char
  | [] => []
  | [(key, v)] => quote key ++ ':' :: print v
  | (key, v) :: rest => quote key ++ ':' :: print v ++ ',' :: printFields rest

end

end Json

end Settings
