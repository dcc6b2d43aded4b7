import Settings.Statement

namespace Settings

/-- What happens to the constants of a session when it parses another text. -/
inductive Policy
  /-- Constants of earlier texts stay. -/
  | accumulate
  /-- Every text starts without constants. -/
  | reset
  deriving DecidableEq, Repr

/-- A run of texts that may share constants. -/
structure Session where
  constants : Constants := .empty
  policy : Policy := .accumulate

namespace Session

/-- Parses a text, with the document or the first error, and the session after it. The
constants that a failed text declared before its first bad line stay, its entries do not. -/
def parse (session : Session) (text : String) : Except ParseError Document × Session :=
  let constants := match session.policy with
    | .accumulate => session.constants
    | .reset => .empty
  let (bindings, failure) := Bindings.readLines ⟨constants, .empty⟩ (logicalLines text)
  let result := match failure with
    | none => .ok bindings.document
    | some e => .error e
  (result, { session with constants := bindings.constants })

/-- The session without its constants. -/
def resetConstants (session : Session) : Session :=
  { session with constants := .empty }

end Session

end Settings
