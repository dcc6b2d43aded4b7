import Settings.Binary.Rounding
import Settings.Table

namespace Settings

/-- A number, which is an integer or a float from the way it is written. -/
inductive Number
  | int (n : Int64)
  | float (x : Double)
  deriving DecidableEq, Repr

namespace Number

/-- The number as a float. An integer too long for one is rounded. -/
def toDouble : Number → Double
  | int n => .ofInt n.toInt
  | float x => x

/-- Whether the number is a float, be it a whole one. -/
def isFloat : Number → Bool
  | int _ => false
  | float _ => true

/-- Equality of numbers. An integer never equals a float. -/
def equal : Number → Number → Bool
  | int m, int n => m = n
  | float x, float y => x.equal y
  | _, _ => false

end Number

/-- What a name can be bound to. -/
inductive Value
  | string (s : String)
  | number (n : Number)
  | array (items : List Value)
  deriving Repr

/-- The sort of a value, as a message names it. -/
inductive Kind
  | string
  | integer
  | float
  | array
  deriving DecidableEq, Repr

/-- The word for the kind. -/
def Kind.name : Kind → String
  | string => "string"
  | integer => "integer"
  | float => "float"
  | array => "array"

namespace Value

/-- An integer as a value. -/
def int (n : Int64) : Value :=
  number (.int n)

/-- A float as a value. -/
def float (x : Double) : Value :=
  number (.float x)

/-- The kind of a value. -/
def kind : Value → Kind
  | string _ => .string
  | number (.int _) => .integer
  | number (.float _) => .float
  | array _ => .array

/-- The number, if the value is one. -/
def number? : Value → Option Number
  | number n => some n
  | _ => none

/-- The items, if the value is an array. -/
def items? : Value → Option (List Value)
  | array items => some items
  | _ => none

mutual

/-- Equality of values. Numbers are compared as numbers, so a value that holds what is not
a number does not equal itself. -/
def equal : Value → Value → Bool
  | string s, string t => s = t
  | number m, number n => m.equal n
  | array vs, array ws => equalItems vs ws
  | _, _ => false

/-- Item by item equality of arrays of one length. -/
def equalItems : List Value → List Value → Bool
  | [], [] => true
  | v :: vs, w :: ws => equal v w && equalItems vs ws
  | _, _ => false

end

instance : BEq Value := ⟨equal⟩

end Value

/-- What the entries of a settings text bind. -/
abbrev Document := Table String Value

/-- What the declarations of a settings text bind. -/
abbrev Constants := Table String Value

end Settings
