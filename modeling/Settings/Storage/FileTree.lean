import Settings.Storage
import Settings.Table

namespace Settings

/-- What stands at a place of a file tree. -/
inductive Node
  | directory
  | file (content : ByteArray)

/-- A place in a file tree: the names that lead to it from the root. -/
abbrev Place := List String

/-- The directories and files of a system, as a process in it sees them. The root is a
directory that is not listed. -/
structure FileTree where
  nodes : Table Place Node
  /-- The directory that relative paths start from. -/
  working : Place

namespace FileTree

/-- What stands at a place, if anything does. -/
def node? (tree : FileTree) : Place → Option Node
  | [] => some .directory
  | place => tree.nodes.get? place

/-- The tree with a node at a place, whatever stood there. -/
def put (tree : FileTree) (place : Place) (node : Node) : FileTree :=
  { tree with nodes := tree.nodes.insert place node }

/-- The names that a path consists of. Slashes stand between them, alone or several. -/
def pathNames (path : String) : List String :=
  ((path.toList.splitOn '/').filter (· ≠ [])).map String.ofList

/-- Whether a path asks for a directory by a slash at its end. -/
def endsWithSlash (path : String) : Bool :=
  path.toList.getLast? = some '/'

/-- The place where a path starts: the root for an absolute path, else the working
directory. -/
def startOf (tree : FileTree) (path : String) : Place :=
  if path.toList.head? = some '/' then [] else tree.working

/-- Refuses a path that no file can have: one with a NUL, an empty one and one of four
thousand and ninety-six bytes or more. -/
def checkPath (path : String) : Except AccessFault Unit :=
  if '\x00' ∈ path.toList then .error .nulInName
  else if path.isEmpty then .error .noEntry
  else if 4096 ≤ path.utf8ByteSize then .error .nameTooLong
  else .ok ()

/-- The place of a name in a directory. Above the root is the root itself. A name has at
most two hundred and fifty-five bytes. -/
def entry (directory : Place) (name : String) : Except AccessFault Place :=
  if name = "." then .ok directory
  else if name = ".." then .ok directory.dropLast
  else if 255 < name.utf8ByteSize then .error .nameTooLong
  else .ok (directory ++ [name])

/-- The place that a name leads to. Only a directory has names in it. -/
def child (tree : FileTree) (place : Place) (name : String) : Except AccessFault Place :=
  match tree.node? place with
  | none => .error .noEntry
  | some (.file _) => .error .notDirectory
  | some .directory => entry place name

/-- The place that names lead to from another. Nothing needs to stand at the last one. -/
def walk (tree : FileTree) (place : Place) (names : List String) : Except AccessFault Place :=
  names.foldlM tree.child place

/-- The bytes of the file at a path. -/
def readBytes (tree : FileTree) (path : String) : Except AccessFault ByteArray :=
  (checkPath path).bind fun _ =>
    (tree.walk (tree.startOf path) (pathNames path)).bind fun place =>
      match tree.node? place with
      | some (.file content) =>
        if endsWithSlash path then .error .notDirectory else .ok content
      | some .directory => .error .isDirectory
      | none => .error .noEntry

/-- The text of the file at a path. -/
def readText (tree : FileTree) (path : String) : Except AccessFault String :=
  (tree.readBytes path).bind fun content =>
    match String.fromUTF8? content with
    | some text => .ok text
    | none => .error .notUtf8

/-- The place of the file that a path can be written to. Its directory has to exist, and no
directory may stand at its place. A path with a slash at its end asks for a directory. -/
def writable (tree : FileTree) (path : String) : Except AccessFault Place :=
  let names := pathNames path
  (checkPath path).bind fun _ =>
    (tree.walk (tree.startOf path) names.dropLast).bind fun directory =>
      match names.getLast? with
      | none => .error .isDirectory
      | some last =>
        (tree.child directory (if endsWithSlash path then "." else last)).bind fun place =>
          match tree.node? place with
          | some .directory => .error .isDirectory
          | _ => .ok place

/-- The tree with a text as the content of the file at a path. -/
def writeText (tree : FileTree) (path text : String) : Except AccessFault FileTree :=
  (tree.writable path).map fun place => tree.put place (.file text.toUTF8)

/-- The tree with a directory and the directories above it. -/
def addDirectory (tree : FileTree) (place : Place) : FileTree :=
  (List.range place.length).foldl
    (fun tree above => tree.put (place.take (above + 1)) .directory) tree

/-- The tree with a file and the directories above it. -/
def addFile (tree : FileTree) (place : Place) (content : ByteArray) : FileTree :=
  (tree.addDirectory place.dropLast).put place (.file content)

/-- The tree of a working directory without entries. -/
def empty (working : Place) : FileTree :=
  addDirectory ⟨.empty, working⟩ working

/-- The tree of some directories and files under their paths, with a working directory of
its own. -/
def ofContents (directories : List String) (files : List (String × ByteArray)) : FileTree :=
  let start := empty ["work"]
  let place (path : String) := start.startOf path ++ pathNames path
  let made := directories.foldl (fun tree path => tree.addDirectory (place path)) start
  files.foldl (fun tree (path, content) => tree.addFile (place path) content) made

end FileTree

/-- Actions on a file tree. Of the ways in which a write can fail, only those in which the
file cannot be opened are modelled, and they leave the tree as it was. Permissions, links and
a write that fails after the file was opened are left out. -/
instance : Storage (StateM FileTree) where
  readText path := fun tree => (tree.readText path, tree)
  writeText path text := fun tree =>
    match tree.writeText path text with
    | .ok written => (.ok (), written)
    | .error e => (.error e, tree)

end Settings
