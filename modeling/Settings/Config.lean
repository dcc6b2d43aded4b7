import Settings.Error
import Settings.Session

namespace Settings

/-- A way from a document to a value in it: a key and the indices of nested arrays. -/
structure Path where
  key : String
  indices : List Nat
  deriving DecidableEq, Repr

namespace Path

/-- The index that a segment of a path stands for: ASCII digits, which a plus may precede,
with a value below two to the sixty-fourth. -/
def index? (segment : List Char) : Option Nat :=
  let digits := if segment.head? = some '+' then segment.tail else segment
  if digits ≠ [] ∧ digits.all Char.isDigit then
    let n := Nat.ofDigitChars 10 digits 0
    if n < 18446744073709551616 then some n else none
  else none

/-- The path that a text such as `grid.1.0` stands for. -/
def ofText? (text : String) : Option Path :=
  match (Text.trim text.toList).splitOn '.' with
  | [] => none
  | key :: segments => (segments.mapM index?).map fun indices => ⟨String.ofList key, indices⟩

end Path

/-- The value that indices lead to, one array after the other. -/
def Value.at? : Value → List Nat → Option Value
  | v, [] => some v
  | .array items, index :: rest => items[index]?.bind fun v => v.at? rest
  | _, _ :: _ => none

/-- A settings text that was parsed: its document and its constants. -/
structure Config where
  document : Document
  constants : Constants

namespace Config

/-- The configuration that a text holds. -/
def ofText (text : String) : Except ParseError Config :=
  let (result, session) := ({} : Session).parse text
  result.map fun document => ⟨document, session.constants⟩

/-- The document with the constants laid over it. -/
def merged (config : Config) : Document :=
  config.document.merge config.constants

/-- The keys of the document in the order of their first entries. -/
def keys (config : Config) : List String :=
  config.document.keys

/-- The value of a constant. -/
def constant? (config : Config) (name : String) : Option Value :=
  config.constants.get? name

/-- The value at a path. Only the document has paths, constants have none. -/
def lookup (config : Config) (path : String) : Option Value :=
  (Path.ofText? path).bind fun route =>
    (config.document.get? route.key).bind fun v => v.at? route.indices

/-- Whether there is a value at a path. -/
def has (config : Config) (path : String) : Bool :=
  (config.lookup path).isSome

/-- The value at a path, or the error that there is none. -/
def getValue (config : Config) (path : String) : Except Error Value :=
  match config.lookup path with
  | some v => .ok v
  | none => .error (.notFound path)

/-- The value at a path as a value of a type. -/
def get (config : Config) (target : Target) (path : String) : Except Error target.Carrier :=
  (config.getValue path).bind fun v =>
    (target.read v).mapError fun cause => .mismatch cause (some path)

/-- The typed value at a path, or nothing where there is no value. A value of another type
is still an error. -/
def getOptional (config : Config) (target : Target) (path : String) :
    Except Error (Option target.Carrier) :=
  match config.get target path with
  | .ok x => .ok (some x)
  | .error (.notFound _) => .ok none
  | .error e => .error e

/-- The typed value at a path, or `default` where there is none of that type. -/
def getOr (config : Config) (target : Target) (path : String) (default : target.Carrier) :
    target.Carrier :=
  match config.get target path with
  | .ok x => x
  | .error _ => default

/-- The configuration in the file at a path that may start in the home directory. -/
def load {m : Type → Type} [Monad m] [Storage m] (home path : String) :
    m (Except Error Config) := do
  let place := expandHome home path
  match ← Storage.readText place with
  | .error cause => return .error (.file place cause)
  | .ok text => return (Config.ofText text).mapError .parse

end Config

end Settings
