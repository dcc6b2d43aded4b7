namespace Settings

/-- Why a file cannot be read or written. -/
inductive AccessFault
  | noEntry
  | notDirectory
  | isDirectory
  | nameTooLong
  | nulInName
  | notUtf8
  /-- Anything else, as the system describes it. -/
  | other (description : String)
  deriving DecidableEq, Repr

/-- The fault in the words of the system. -/
def AccessFault.message : AccessFault → String
  | noEntry => "No such file or directory (os error 2)"
  | notDirectory => "Not a directory (os error 20)"
  | isDirectory => "Is a directory (os error 21)"
  | nameTooLong => "File name too long (os error 36)"
  | nulInName => "file name contained an unexpected NUL byte"
  | notUtf8 => "stream did not contain valid UTF-8"
  | other description => description

/-- A monad whose actions read and write whole text files. -/
class Storage (m : Type → Type) where
  /-- The text of the file at a path. -/
  readText : String → m (Except AccessFault String)
  /-- Makes a text the content of the file at a path. -/
  writeText : String → String → m (Except AccessFault Unit)

/-- A path in which a leading `~` stands for the home directory. The tilde has to be a whole
name. What follows it is put after the home directory without the slashes and single dots
at its ends. -/
def expandHome (home path : String) : String :=
  let idle : List Char → Bool := fun name => name = [] ∨ name = ['.']
  match path.toList.splitOn '/' with
  | ['~'] :: names =>
    let kept := ((names.dropWhile idle).reverse.dropWhile idle).reverse
    home ++ "/" ++ String.ofList (['/'].intercalate kept)
  | _ => path

end Settings
