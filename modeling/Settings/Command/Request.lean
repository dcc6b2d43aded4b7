import Settings.Json.Rendering

namespace Settings

/-- What a command line asks for. -/
structure Request where
  file : String
  /-- Where the JSON goes, if not to the standard output. -/
  output : Option String
  withConstants : Bool
  layout : Layout
  deriving DecidableEq, Repr

/-- What the arguments read so far say. -/
structure Draft where
  file : Option String := none
  output : Option String := none
  noConstants : Bool := false
  compact : Bool := false
  deriving DecidableEq, Repr

namespace Draft

/-- Takes the file to read, which is named once and not empty. -/
def setFile (draft : Draft) (path : String) : Option Draft :=
  if draft.file.isSome ∨ path.isEmpty then none else some { draft with file := some path }

/-- Takes the output path, which is given at most once and not empty. -/
def setOutput (draft : Draft) (path : String) : Option Draft :=
  if draft.output.isSome ∨ path.isEmpty then none else some { draft with output := some path }

/-- Takes the flag that leaves constants out, which is given at most once. -/
def setNoConstants (draft : Draft) : Option Draft :=
  if draft.noConstants then none else some { draft with noConstants := true }

/-- Takes the flag for one line, which is given at most once. -/
def setCompact (draft : Draft) : Option Draft :=
  if draft.compact then none else some { draft with compact := true }

/-- The request of a finished draft. -/
def finish (draft : Draft) : Option Request :=
  draft.file.map fun file =>
    { file, output := draft.output, withConstants := !draft.noConstants,
      layout := if draft.compact then .compact else .pretty }

end Draft

namespace Request

/-- Whether an argument is written like an option. A single dash is a plain value. -/
def isOption (argument : String) : Bool :=
  argument ≠ "-" ∧ argument.toList.head? = some '-'

/-- The output path that is written in one argument with its option. -/
def attachedOutput? (argument : String) : Option String :=
  let long := "--output=".toList
  if long <+: argument.toList then some (String.ofList (argument.toList.drop long.length))
  else match argument.toList with
    | '-' :: 'o' :: '=' :: path => some (String.ofList path)
    | '-' :: 'o' :: c :: path => some (String.ofList (c :: path))
    | _ => none

/-- Reads arguments that follow the end of options, all of them plain values. -/
def readPlain (draft : Draft) : List String → Option Draft
  | [] => some draft
  | argument :: rest => (draft.setFile argument).bind fun next => readPlain next rest

/-- Reads arguments. An output path in an argument of its own must not be written like an
option. -/
def readArguments (draft : Draft) : List String → Option Draft
  | [] => some draft
  | argument :: rest =>
    if argument = "--" then readPlain draft rest
    else if argument = "--no-constants" then
      draft.setNoConstants.bind fun next => readArguments next rest
    else if argument = "--compact" then
      draft.setCompact.bind fun next => readArguments next rest
    else if argument = "-o" ∨ argument = "--output" then
      match rest with
      | [] => none
      | path :: later =>
        if isOption path then none
        else (draft.setOutput path).bind fun next => readArguments next later
    else match attachedOutput? argument with
      | some path => (draft.setOutput path).bind fun next => readArguments next rest
      | none =>
        if isOption argument then none
        else (draft.setFile argument).bind fun next => readArguments next rest

/-- The request of a command line, if it is a proper one. -/
def ofArguments? (arguments : List String) : Option Request :=
  (readArguments {} arguments).bind Draft.finish

end Request

end Settings
