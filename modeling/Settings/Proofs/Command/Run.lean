import Settings.Command.Run
import Settings.Proofs.Command.Arguments
import Settings.Proofs.Storage.FileTree

namespace Settings

/-- An export renders the configuration in the file and writes nothing. -/
theorem run_exportFile (tree : FileTree) (path : String) (withConstants : Bool) (layout : Layout) :
    (exportFile path withConstants layout : StateM FileTree (Except Error String)).run tree =
      pure (((tree.readText path).mapError (Error.file path)).bind fun text =>
        ((Config.ofText text).mapError Error.parse).map fun config =>
          Document.render layout (if withConstants then config.merged else config.document), tree) := by
  rw [exportFile, StateT.run_bind, FileTree.run_readText, pure_bind]
  cases tree.readText path with
  | error cause => rfl
  | ok text =>
    unfold Config.ofText
    dsimp only [Except.mapError, Except.bind]
    rcases ({} : Session).parse text with ⟨⟨e⟩ | ⟨document⟩, session⟩
    · rfl
    · cases withConstants with
      | false => rfl
      | true => rfl

namespace Request

variable {tree : FileTree} {request : Request} {text path : String} {e : Error}

/-- The JSON text that a request asks for where the configuration is as given. -/
def json (request : Request) (config : Config) : String :=
  Document.render request.layout (if request.withConstants then config.merged else config.document)

/-- The report of a request on the files of a tree, and the tree after it. -/
def runOn (request : Request) (tree : FileTree) : Report × FileTree :=
  (request.run : StateM FileTree Report).run tree

theorem runOn_of_failed
    (failed : (exportFile request.file request.withConstants request.layout :
      StateM FileTree (Except Error String)).run tree = pure (.error e, tree)) :
    request.runOn tree = (.failure e, tree) := by
  rw [runOn, run, StateT.run_bind, failed, pure_bind]
  rfl

section

variable (exported : (exportFile request.file request.withConstants request.layout :
  StateM FileTree (Except Error String)).run tree = pure (.ok text, tree))

include exported

theorem runOn_of_no_output (unset : request.output = none) :
    request.runOn tree = (.success (text ++ "\n"), tree) := by
  rw [runOn, run, StateT.run_bind, exported, pure_bind, unset]
  rfl

theorem runOn_of_writable {place : Place} (set : request.output = some path)
    (writable : tree.writable path = .ok place) :
    request.runOn tree = (.success "", tree.put place (.file (text ++ "\n").toUTF8)) := by
  have written : (Storage.writeText path (text ++ "\n") : StateM FileTree (Except AccessFault Unit)).run tree =
      pure (.ok (), tree.put place (.file (text ++ "\n").toUTF8)) := by
    rw [FileTree.run_writeText, FileTree.writeText, writable]
    rfl
  rw [runOn, run, StateT.run_bind, exported, pure_bind, set]
  dsimp only
  rw [StateT.run_bind, written, pure_bind]
  rfl

theorem runOn_of_not_writable {cause : AccessFault} (set : request.output = some path)
    (refused : tree.writable path = .error cause) :
    request.runOn tree = (.failure (.file path cause), tree) := by
  have kept : (Storage.writeText path (text ++ "\n") : StateM FileTree (Except AccessFault Unit)).run tree =
      pure (.error cause, tree) := by
    rw [FileTree.run_writeText, FileTree.writeText, refused]
    rfl
  rw [runOn, run, StateT.run_bind, exported, pure_bind, set]
  dsimp only
  rw [StateT.run_bind, kept, pure_bind]
  rfl

end

/-- A run is all or nothing. A command line is read as what its parts give. If the file holds a
configuration, its JSON text and a newline are printed or become the content of the output file, from the
file as it was, and nothing else is printed or changed. In all other cases the error is the only thing that
is printed, and nothing is changed. -/
theorem run_all_or_nothing {arguments : List String} (read : ofArguments? arguments = some request)
    (tree : FileTree) :
    (∃ givens, CommandLine givens arguments ∧ request.Says givens) ∧
      (∀ text config, tree.readText request.file = .ok text → Config.ofText text = .ok config →
        (request.output = none → request.runOn tree = (⟨0, request.json config ++ "\n", ""⟩, tree)) ∧
          ∀ path, request.output = some path →
            (∀ place, tree.writable path = .ok place →
              ∃ after : FileTree, request.runOn tree = (⟨0, "", ""⟩, after) ∧
                after.readText path = .ok (request.json config ++ "\n") ∧ after.working = tree.working ∧
                ∀ other, other ≠ place → after.node? other = tree.node? other) ∧
              ∀ cause, tree.writable path = .error cause → request.runOn tree =
                (⟨1, "", "error: " ++ (Error.file path cause).message ++ "\n"⟩, tree)) ∧
      (∀ text e, tree.readText request.file = .ok text → Config.ofText text = .error e →
        request.runOn tree = (⟨1, "", "error: " ++ (Error.parse e).message ++ "\n"⟩, tree)) ∧
      ∀ cause, tree.readText request.file = .error cause → request.runOn tree =
        (⟨1, "", "error: " ++ (Error.file request.file cause).message ++ "\n"⟩, tree) := by
  refine ⟨exists_commandLine read, ?_, ?_, ?_⟩
  · intro text config readable parsed
    have exported : (exportFile request.file request.withConstants request.layout :
        StateM FileTree (Except Error String)).run tree = pure (.ok (request.json config), tree) := by
      rw [run_exportFile, readable, Except.mapError, Except.bind, parsed]
      rfl
    refine ⟨runOn_of_no_output exported, fun path set => ⟨?_, ?_⟩⟩
    · intro place writable
      exact ⟨_, runOn_of_writable exported set writable, FileTree.readText_put writable _, rfl,
        fun other apart => tree.node?_put_of_ne apart _⟩
    · exact fun cause refused => runOn_of_not_writable exported set refused
  · intro text e readable faulty
    refine runOn_of_failed ?_
    rw [run_exportFile, readable, Except.mapError, Except.bind, faulty]
    rfl
  · intro cause unreadable
    refine runOn_of_failed ?_
    rw [run_exportFile, unreadable]
    rfl

/-- A settings file under the root that becomes its own export, by a path from the working directory. -/
theorem run_all_or_nothing_in_place :
    let text := "n := 1\nk : #[n]\n"
    let tree := (FileTree.empty ["d"]).put ["a"] (.file text.toUTF8)
    let request : Request := ⟨"/a", some "../a", true, .compact⟩
    ofArguments? ["-o../a", "/a", "--compact"] = some request ∧ tree.readText "/a" = .ok text ∧
      ∃ after : FileTree, request.runOn tree = (⟨0, "", ""⟩, after) ∧
        after.readText "../a" = .ok (r#"{"k":1,"n":1}"# ++ "\n") ∧ after.working = ["d"] ∧
        ∀ other, other ≠ ["a"] → after.node? other = tree.node? other := by
  intro text tree request
  have read : ofArguments? ["-o../a", "/a", "--compact"] = some request := by
    decide +kernel
  have free : (FileTree.empty ["d"]).writable "/a" = .ok ["a"] := by
    with_unfolding_all rfl
  have writable : tree.writable "../a" = .ok ["a"] := by
    with_unfolding_all rfl
  let config : Config := ⟨Table.ofList [("k", .int 1)], Table.ofList [("n", .int 1)]⟩
  have parsed : Config.ofText text = .ok config := by
    dsimp only [text]
    with_unfolding_all rfl
  have json : request.json config = r#"{"k":1,"n":1}"# := by
    with_unfolding_all rfl
  have readable : tree.readText "/a" = .ok text := FileTree.readText_put free text
  obtain ⟨-, accepted, -⟩ := run_all_or_nothing read tree
  obtain ⟨after, course, written, rest⟩ :=
    ((accepted text config readable parsed).2 "../a" rfl).1 ["a"] writable
  rw [json] at written
  exact ⟨read, readable, after, course, written, rest⟩

end Request

end Settings
