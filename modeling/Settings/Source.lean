import Settings.Text

namespace Settings

/-- A line of a source text with its place in it. Lines are numbered from one. -/
structure SourceLine where
  number : Nat
  /-- The characters of the line with its terminator. -/
  content : List Char
  deriving DecidableEq, Repr

namespace SourceLine

/-- The line without its terminator. -/
def text (line : SourceLine) : List Char :=
  Text.withoutTerminator line.content

/-- A comment block starts at a line that holds `=begin` and otherwise only blanks. -/
def opens (line : SourceLine) : Bool :=
  Text.trim line.content = "=begin".toList

/-- A comment block ends with the next line that holds `=cut` and otherwise only blanks. -/
def closes (line : SourceLine) : Bool :=
  Text.trim line.content = "=cut".toList

end SourceLine

/-- Where a line stands: among the statements or inside a comment block. -/
inductive Region
  | statements
  | comment
  deriving DecidableEq, Repr

/-- All lines of a text. -/
def sourceLines (text : List Char) : List SourceLine :=
  ((Text.lines text).zipIdx 1).map fun (content, number) => ⟨number, content⟩

/-- The lines outside the comment blocks. A block reaches from its opening line to the
first closing line after it, both included, and blocks do not nest. An opening line that
no closing line follows opens nothing, and neither does any line after it. -/
def outsideComments : Region → List SourceLine → List SourceLine
  | _, [] => []
  | .comment, line :: rest =>
    outsideComments (if line.closes then .statements else .comment) rest
  | .statements, line :: rest =>
    if !line.opens then line :: outsideComments .statements rest
    else if rest.any SourceLine.closes then outsideComments .comment rest
    else line :: rest

/-- The lines of a text that belong to no comment block, under their own numbers. -/
def logicalLines (text : String) : List SourceLine :=
  outsideComments .statements (sourceLines text.toList)

/-- The text without its comment blocks. Every other line keeps its terminator. -/
def stripComments (text : String) : String :=
  String.ofList ((logicalLines text).flatMap SourceLine.content)

end Settings
