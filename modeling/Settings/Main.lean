import Settings.Command.Run
import Settings.Text

namespace Settings

/-- A failure of a system call in the words of the system. -/
def systemFault (code : UInt32) (details : String) : AccessFault :=
  match code with
  | 2 => .noEntry
  | 20 => .notDirectory
  | 21 => .isDirectory
  | 36 => .nameTooLong
  | _ => .other (details ++ " (os error " ++ String.ofList (Text.ofNat code.toNat) ++ ")")

/-- Why an action on a file failed. -/
def accessFault : IO.Error → AccessFault
  | .noFileOrDirectory _ code details | .alreadyExists _ code details
  | .permissionDenied _ code details | .resourceExhausted _ code details
  | .inappropriateType _ code details | .noSuchThing _ code details
  | .invalidArgument _ code details | .interrupted _ code details
  | .otherError code details | .resourceBusy code details | .resourceVanished code details
  | .unsupportedOperation code details | .hardwareFault code details
  | .unsatisfiedConstraints code details | .illegalOperation code details
  | .protocolError code details | .timeExpired code details => systemFault code details
  | .unexpectedEof => .other "unexpected end of file"
  | .userError text => .other text

/-- The files of the system. -/
instance : Storage IO where
  readText path := do
    try
      match String.fromUTF8? (← IO.FS.withFile path .read (·.readBinToEnd)) with
      | some text => return .ok text
      | none => return .error .notUtf8
    catch e => return .error (accessFault e)
  writeText path text := do
    try
      IO.FS.writeFile path text
      return .ok ()
    catch e => return .error (accessFault e)

end Settings

/-- Exports a settings file as JSON. -/
def main (arguments : List String) : IO UInt32 := do
  match Settings.Request.ofArguments? arguments with
  | none =>
    IO.eprintln "usage: quill <FILE> [--no-constants] [--compact] [-o <PATH>]"
    return 2
  | some request =>
    let report ← (request.run : IO Settings.Report)
    IO.print report.output
    IO.eprint report.errors
    return report.exitCode.toUInt32
