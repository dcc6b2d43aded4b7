import Settings.Text
import Settings.Value

namespace Settings

/-- A type of integers of fixed width. -/
inductive IntegerType
  | signed64
  | signed32
  | unsigned8
  | unsigned16
  | unsigned32
  | unsigned64
  /-- The type of sizes, which has sixty-four bits and no sign. -/
  | size
  deriving DecidableEq, Repr

namespace IntegerType

/-- The short name of the type, as a message writes it. -/
def name : IntegerType → String
  | signed64 => "i64"
  | signed32 => "i32"
  | unsigned8 => "u8"
  | unsigned16 => "u16"
  | unsigned32 => "u32"
  | unsigned64 => "u64"
  | size => "usize"

/-- The least integer of the type. -/
def lower : IntegerType → Int
  | signed64 => -9223372036854775808
  | signed32 => -2147483648
  | unsigned8 | unsigned16 | unsigned32 | unsigned64 | size => 0

/-- The greatest integer of the type. -/
def upper : IntegerType → Int
  | signed64 => 9223372036854775807
  | signed32 => 2147483647
  | unsigned8 => 255
  | unsigned16 => 65535
  | unsigned32 => 4294967295
  | unsigned64 | size => 18446744073709551615

/-- The integers of the type. -/
abbrev Carrier (type : IntegerType) : Type :=
  { n : Int // type.lower ≤ n ∧ n ≤ type.upper }

end IntegerType

/-- A type that a value can be read as. -/
inductive Target
  | string
  | double
  | single
  | integer (type : IntegerType)
  | list (element : Target)
  deriving DecidableEq, Repr

/-- What a target needs a value to be. -/
inductive Expectation
  | string
  | number
  | integer
  | array
  deriving DecidableEq, Repr

/-- The word for what is expected. -/
def Expectation.name : Expectation → String
  | string => "string"
  | number => "number"
  | integer => "integer"
  | array => "array"

/-- Why a value is not of a target type. -/
inductive Mismatch
  /-- The value is of another kind. -/
  | kind (expected : Expectation) (found : Kind)
  /-- The integer does not fit the type. -/
  | range (n : Int64) (type : IntegerType)
  deriving DecidableEq, Repr

/-- The mismatch as it is shown to a user. -/
def Mismatch.message : Mismatch → String
  | kind expected found => "Expected " ++ expected.name ++ ", got " ++ found.name
  | range n type =>
    "Number " ++ String.ofList (Text.ofInt n.toInt) ++ " out of range for " ++ type.name

namespace Target

/-- The values of a target type. -/
def Carrier : Target → Type
  | string => String
  | double => Double
  | single => Single
  | integer type => type.Carrier
  | list element => List element.Carrier

/-- A value as a text. -/
def toText : Value → Except Mismatch String
  | .string s => .ok s
  | v => .error (.kind .string v.kind)

/-- A value as a number, for a target that takes both integers and floats. -/
def toNumber (v : Value) : Except Mismatch Number :=
  match v.number? with
  | some n => .ok n
  | none => .error (.kind .number v.kind)

/-- A value as an integer of a type. A float is none, even a whole one. -/
def toInteger (type : IntegerType) : Value → Except Mismatch type.Carrier
  | .number (.int n) =>
    if inside : type.lower ≤ n.toInt ∧ n.toInt ≤ type.upper then .ok ⟨n.toInt, inside⟩
    else .error (.range n type)
  | v => .error (.kind .integer v.kind)

/-- A value as a list of values. -/
def toItems (v : Value) : Except Mismatch (List Value) :=
  match v.items? with
  | some items => .ok items
  | none => .error (.kind .array v.kind)

/-- A value read as a target type. A single takes the double of a number and rounds it
again. A list fails with its first bad item. -/
def read : (target : Target) → Value → Except Mismatch target.Carrier
  | string, v => toText v
  | double, v => (toNumber v).map Number.toDouble
  | single, v => (toNumber v).map fun n => n.toDouble.convert
  | integer type, v => toInteger type v
  | list element, v => (toItems v).bind fun items => items.mapM element.read

end Target

/-- A type all of whose values can be written into settings as they are. -/
inductive Plain
  | string
  | integer
  | double
  | list (element : Plain)
  deriving DecidableEq, Repr

/-- The target that reads a plain type. -/
def Plain.target : Plain → Target
  | string => .string
  | integer => .integer .signed64
  | double => .double
  | list element => .list element.target

/-- The value that stands for a member of a plain type. -/
def Value.of : (plain : Plain) → plain.target.Carrier → Value
  | .string, s => .string s
  | .integer, n => .int (Int64.ofInt n.val)
  | .double, x => .float x
  | .list element, xs => .array (List.map (of element) xs)

end Settings
