import Settings.Command.Request
import Settings.Config

namespace Settings

/-- What a run of the command shows to its caller. -/
structure Report where
  exitCode : Nat
  /-- The text on the standard output. -/
  output : String
  /-- The text on the standard error stream. -/
  errors : String
  deriving DecidableEq, Repr

namespace Report

/-- The report of a run that printed a text. -/
def success (output : String) : Report :=
  ⟨0, output, ""⟩

/-- The report of a run that failed. -/
def failure (e : Error) : Report :=
  ⟨1, "", "error: " ++ e.message ++ "\n"⟩

end Report

variable {m : Type → Type} [Monad m] [Storage m]

/-- The JSON text of the settings file at a path, with the constants laid over the document
or without them. -/
def exportFile (path : String) (withConstants : Bool) (layout : Layout) :
    m (Except Error String) := do
  match ← Storage.readText path with
  | .error cause => return .error (.file path cause)
  | .ok text =>
    match ({} : Session).parse text with
    | (.error e, _) => return .error (.parse e)
    | (.ok document, session) =>
      if withConstants then return .ok (document.renderWith layout session.constants)
      else return .ok (document.render layout)

/-- Does what a request asks for. The whole JSON text is made before anything is written. -/
def Request.run (request : Request) : m Report := do
  match ← exportFile request.file request.withConstants request.layout with
  | .error e => return .failure e
  | .ok json =>
    match request.output with
    | none => return .success (json ++ "\n")
    | some path =>
      match ← Storage.writeText path (json ++ "\n") with
      | .ok () => return .success ""
      | .error cause => return .failure (.file path cause)

end Settings
