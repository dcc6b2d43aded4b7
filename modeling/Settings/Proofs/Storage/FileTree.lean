import Settings.Proofs.Except.Results
import Settings.Storage.FileTree

namespace Settings

namespace FileTree

variable {tree : FileTree} {place target stop : Place} {name path : String} {names : List String}
  {content : ByteArray}

theorem node?_of_ne_nil (tree : FileTree) (below : place ≠ []) : tree.node? place = tree.nodes.get? place := by
  rw [node?]
  exact below

theorem node?_put_self (tree : FileTree) (below : place ≠ []) (node : Node) :
    (tree.put place node).node? place = some node := by
  rw [node?_of_ne_nil _ below, put, Table.get?_insert, if_pos rfl]

theorem node?_put_of_ne (tree : FileTree) (apart : place ≠ target) (node : Node) :
    (tree.put target node).node? place = tree.node? place := by
  cases place with
  | nil => rfl
  | cons name rest =>
    have below : name :: rest ≠ [] := List.cons_ne_nil name rest
    rw [node?_of_ne_nil _ below, node?_of_ne_nil _ below, put, Table.get?_insert, if_neg apart.symm]

/-- A name leads from a directory to the same place in every tree. -/
theorem child_of_directory (name : String) (standing : tree.node? place = some .directory) :
    tree.child place name = entry place name := by
  rw [child, standing]

theorem directory_of_child (found : tree.child place name = .ok stop) : tree.node? place = some .directory := by
  rw [child] at found
  split at found
  · cases found
  · cases found
  · assumption

theorem walk_cons (tree : FileTree) (place : Place) (name : String) (names : List String) :
    tree.walk place (name :: names) = (tree.child place name).bind fun next => tree.walk next names :=
  List.foldlM_cons

theorem walk_concat (tree : FileTree) (place : Place) (names : List String) (name : String) :
    tree.walk place (names ++ [name]) = (tree.walk place names).bind fun directory => tree.child directory name := by
  simp only [walk, List.foldlM_append, List.foldlM_cons, List.foldlM_nil, bind_pure]
  rfl

/-- A file that is put where no directory stands is in no one's way. -/
theorem child_put (free : tree.node? target ≠ some .directory) (found : tree.child place name = .ok stop) :
    (tree.put target (.file content)).child place name = .ok stop := by
  have standing := directory_of_child found
  have apart : place ≠ target := by
    rintro rfl
    exact free standing
  rw [child_of_directory name standing] at found
  rw [← node?_put_of_ne tree apart (.file content)] at standing
  rw [child_of_directory name standing, found]

theorem walk_put (free : tree.node? target ≠ some .directory) (walked : tree.walk place names = .ok stop) :
    (tree.put target (.file content)).walk place names = .ok stop := by
  induction names generalizing place with
  | nil => exact walked
  | cons name rest ih =>
    rw [walk_cons, bind_eq_ok_iff] at walked ⊢
    obtain ⟨next, found, onward⟩ := walked
    exact ⟨next, child_put free found, ih onward⟩

/-- A path that can be written to leads to a place where no directory stands, and has no slash at its end. -/
theorem writable_eq_ok_cases (writable : tree.writable path = .ok place) :
    checkPath path = .ok () ∧ tree.walk (tree.startOf path) (pathNames path) = .ok place ∧
      endsWithSlash path = false ∧ tree.node? place ≠ some .directory := by
  rw [FileTree.writable] at writable
  obtain ⟨_, checked, writable⟩ := bind_eq_ok_iff.mp writable
  obtain ⟨directory, walked, writable⟩ := bind_eq_ok_iff.mp writable
  cases ends : (pathNames path).getLast? with
  | none =>
    rw [ends] at writable
    cases writable
  | some last =>
    rw [ends] at writable
    obtain ⟨target, found, writable⟩ := bind_eq_ok_iff.mp writable
    split at writable
    · cases writable
    · rename_i free
      cases writable
      -- A slash at the end asks for the directory itself, where no file can be.
      have plain : endsWithSlash path = false := by
        cases slash : endsWithSlash path with
        | false => rfl
        | true =>
          have standing := directory_of_child found
          rw [slash, if_pos rfl, child_of_directory _ standing] at found
          cases found
          exact absurd standing free
      rw [plain, if_neg Bool.false_ne_true] at found
      refine ⟨checked, ?_, plain, free⟩
      rw [← List.dropLast_append_getLast? last ends, walk_concat, walked]
      exact found

theorem run_readText (tree : FileTree) (path : String) :
    (Storage.readText path : StateM FileTree (Except AccessFault String)).run tree =
      pure (tree.readText path, tree) :=
  rfl

theorem run_writeText (tree : FileTree) (path text : String) :
    (Storage.writeText path text : StateM FileTree (Except AccessFault Unit)).run tree =
      pure (match tree.writeText path text with
        | .ok written => (.ok (), written)
        | .error cause => (.error cause, tree)) :=
  rfl

theorem fromUTF8?_toUTF8 (text : String) : String.fromUTF8? text.toUTF8 = some text :=
  dif_pos text.isValidUTF8

/-- A text that is written to a path is what is read there afterwards. -/
theorem readText_put (writable : tree.writable path = .ok place) (text : String) :
    (tree.put place (.file text.toUTF8)).readText path = .ok text := by
  obtain ⟨checked, walked, plain, free⟩ := writable_eq_ok_cases writable
  have below : place ≠ [] := by
    rintro rfl
    exact free rfl
  have arrived : (tree.put place (.file text.toUTF8)).walk (tree.startOf path) (pathNames path) = .ok place :=
    walk_put free walked
  have bytes : (tree.put place (.file text.toUTF8)).readBytes path = .ok text.toUTF8 := by
    rw [readBytes, checked, Except.bind, show (tree.put place _).startOf path = tree.startOf path from rfl,
      arrived, Except.bind, node?_put_self tree below, plain]
    rfl
  rw [readText, bytes, Except.bind, fromUTF8?_toUTF8]

end FileTree

end Settings
