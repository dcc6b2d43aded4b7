import Settings.Storage
import Settings.Target

namespace Settings

/-- What is wrong with a line. -/
inductive Fault
  /-- The line holds `:=` but is no name, operator and value. -/
  | malformedDeclaration (text : String)
  /-- The line is no key, operator and value. -/
  | malformedEntry (text : String)
  /-- The entry refers to a name that no constant has. -/
  | undefinedConstant (name : String)
  /-- The value is no literal because of the fragment. -/
  | invalidLiteral (fragment : String)
  deriving DecidableEq, Repr

/-- A fault and the number of the line that has it. -/
structure ParseError where
  line : Nat
  fault : Fault
  deriving DecidableEq, Repr

/-- The error as it is shown to a user. -/
def ParseError.message (e : ParseError) : String :=
  let line := String.ofList (Text.ofNat e.line)
  match e.fault with
  | .malformedDeclaration text =>
    "[QUILL] Malformed declaration at line " ++ line ++ ": '" ++ text ++
      "' Hint: expected `name := value`"
  | .malformedEntry text =>
    "[QUILL] Malformed entry at line " ++ line ++ ": '" ++ text ++
      "' Hint: expected `key : value`"
  | .undefinedConstant name =>
    "[QUILL] Undefined constant '" ++ name ++ "' at line " ++ line ++
      " Hint: declare it with `" ++ name ++ " := ...` before using #[" ++ name ++ "]"
  | .invalidLiteral fragment =>
    "[QUILL] Invalid literal '" ++ fragment ++ "' at line " ++ line

/-- Everything that can go wrong between a settings file and a typed value. -/
inductive Error
  /-- A line of the text is bad. -/
  | parse (e : ParseError)
  /-- A value is not of the requested type. It was looked up at a path if there is one. -/
  | mismatch (cause : Mismatch) (path : Option String)
  /-- There is no value at the path. -/
  | notFound (path : String)
  /-- A file cannot be read or written. -/
  | file (path : String) (cause : AccessFault)
  deriving DecidableEq, Repr

/-- The error as it is shown to a user. -/
def Error.message : Error → String
  | parse e => e.message
  | mismatch cause none => "[QUILL] Type Error: " ++ cause.message
  | mismatch cause (some path) =>
    "[QUILL] Type Error: " ++ cause.message ++ " (at '" ++ path ++ "')"
  | notFound path => "[QUILL] No value at '" ++ path ++ "'"
  | file path cause => "[QUILL] File Error '" ++ path ++ "': " ++ cause.message

end Settings
