import Settings.Proofs.Config.Lookups
import Settings.Proofs.Literal.Nodes
import Settings.Proofs.Session.Sound

namespace Settings

open Text (Digits)

namespace Path

/-- A segment of a path stands for an index: ASCII digits, which a plus may precede, with a value below
two to the sixty-fourth. -/
def Indexes (segment : List Char) (index : Nat) : Prop :=
  ∃ digits, (segment = digits ∨ segment = '+' :: digits) ∧ Digits digits ∧
    Nat.ofDigitChars 10 digits 0 = index ∧ index < 2 ^ 64

theorem index?_eq_some_iff {segment : List Char} {index : Nat} :
    index? segment = some index ↔ Indexes segment index := by
  simp only [index?, Option.ite_none_right_eq_some, Option.some.injEq, List.all_eq_true]
  constructor
  · rintro ⟨⟨nonempty, numeric⟩, small, rfl⟩
    refine ⟨_, ?_, ⟨nonempty, numeric⟩, rfl, small⟩
    split
    · rename_i plus
      obtain ⟨digits, rfl⟩ := List.head?_eq_some_iff.mp plus
      exact Or.inr rfl
    · exact Or.inl rfl
  · rintro ⟨digits, rfl | rfl, written, rfl, small⟩
    · rw [if_neg (written.head?_ne rfl)]
      exact ⟨⟨written.nonempty, written.numeric⟩, small, rfl⟩
    · rw [List.head?_cons, if_pos rfl, List.tail_cons]
      exact ⟨⟨written.nonempty, written.numeric⟩, small, rfl⟩

theorem indexes_ofNat {index : Nat} (small : index < 2 ^ 64) : Indexes (Text.ofNat index) index :=
  ⟨_, Or.inl rfl, Text.digits_ofNat index, Text.ofDigitChars_ofNat index, small⟩

theorem Indexes.dotless {segment : List Char} {index : Nat} (indexes : Indexes segment index) :
    '.' ∉ segment := by
  obtain ⟨digits, spelled, written, -, -⟩ := indexes
  have absent : '.' ∉ digits := fun member => Bool.false_ne_true (written.numeric '.' member)
  rcases spelled with rfl | rfl
  · exact absent
  · simpa using absent

theorem mapM_index?_eq_some_iff {segments : List (List Char)} {indices : List Nat} :
    segments.mapM index? = some indices ↔ List.Forall₂ Indexes segments indices := by
  induction segments generalizing indices with
  | nil => simp [eq_comm]
  | cons segment rest ih =>
    simp only [List.mapM_cons, List.forall₂_cons_left_iff, Option.bind_eq_bind, Option.bind_eq_some_iff,
      Option.pure_def, Option.some.injEq, index?_eq_some_iff, ih]
    constructor
    · rintro ⟨index, first, later, others, rfl⟩
      exact ⟨index, later, first, others, rfl⟩
    · rintro ⟨index, later, first, others, rfl⟩
      exact ⟨index, first, later, others, rfl⟩

/-- A path text consists of a key and of segments for indices, with a dot between any two. Blanks
around the text do not count. -/
def Spells (text : String) (path : Path) : Prop :=
  ∃ segments, Text.trim text.toList = ['.'].intercalate (path.key.toList :: segments) ∧
    List.Forall₂ Indexes segments path.indices

theorem exists_spells_of_ofText? {text : String} {path : Path} (found : ofText? text = some path) :
    Spells text path := by
  have joined : ['.'].intercalate ((Text.trim text.toList).splitOn '.') = Text.trim text.toList :=
    List.intercalate_splitOn '.'
  rw [ofText?] at found
  split at found
  · cases found
  · rename_i key segments split
    obtain ⟨indices, indexed, rfl⟩ := Option.map_eq_some_iff.mp found
    refine ⟨segments, ?_, mapM_index?_eq_some_iff.mp indexed⟩
    rw [split] at joined
    rw [String.toList_ofList, joined]

/-- The dots of a path are those between its parts if the key has none. -/
theorem Spells.ofText? {text : String} {path : Path} (spells : Spells text path)
    (dotless : '.' ∉ path.key.toList) : ofText? text = some path := by
  obtain ⟨segments, shape, indexed⟩ := spells
  have whole : ∀ part ∈ path.key.toList :: segments, '.' ∉ part := by
    refine List.forall_mem_cons.mpr ⟨dotless, ?_⟩
    intro segment member
    obtain ⟨index, -, indexes⟩ := exists_left_of_mem indexed.flip member
    exact Indexes.dotless indexes
  rw [Path.ofText?, shape, List.splitOn_intercalate '.' whole (List.cons_ne_nil _ _)]
  simp only [mapM_index?_eq_some_iff.mpr indexed, Option.map_some, String.ofList_toList]

/-- The first of parts that are joined by dots is in front of the first dot if it has none. -/
theorem takeWhile_intercalate {first : List Char} (dotless : '.' ∉ first) (rest : List (List Char)) :
    (['.'].intercalate (first :: rest)).takeWhile (· ≠ '.') = first := by
  have inside : ∀ c ∈ first, decide (c ≠ '.') = true := by
    intro c member
    exact decide_eq_true fun isDot => dotless (isDot ▸ member)
  cases rest with
  | nil => rw [List.intercalate_singleton, List.takeWhile_eq_self_iff.mpr inside]
  | cons second rest =>
    rw [List.intercalate_cons_cons, List.append_assoc]
    exact (Text.takeWhile_run inside (by simp)).1

/-- The plain text of a path: the key and the decimal numbers of the indices, with dots between them. -/
def canonical (path : Path) : String :=
  String.ofList (['.'].intercalate (path.key.toList :: path.indices.map Text.ofNat))

/-- Nothing in the text of a path is blank if its key is a name. -/
theorem trim_canonical {path : Path} (identifier : IsIdentifier path.key) :
    Text.trim path.canonical.toList = path.canonical.toList := by
  have visible : ∀ c ∈ path.canonical.toList, Text.isBlank c = false := by
    intro c member
    rw [canonical, String.toList_ofList, Literal.mem_intercalate_iff] at member
    rcases member with ⟨part, inside, inPart⟩ | ⟨isDot, -⟩
    · rcases List.mem_cons.mp inside with rfl | digits
      · exact not_isBlank_of_isAlphanum (identifier.isAlphanum_of_mem inPart)
      · obtain ⟨index, -, rfl⟩ := List.mem_map.mp digits
        have digit := (Text.digits_ofNat index).numeric c inPart
        exact not_isBlank_of_isAlphanum (by rw [Char.isAlphanum, digit, Bool.or_true])
    · rw [List.mem_singleton.mp isDot]
      rfl
  exact Text.trim_eq_self (fun c first => visible c (List.mem_of_mem_head? first))
    fun c last => visible c (List.mem_of_getLast? last)

theorem spells_canonical {path : Path} (identifier : IsIdentifier path.key)
    (small : ∀ index ∈ path.indices, index < 2 ^ 64) : Spells path.canonical path := by
  refine ⟨path.indices.map Text.ofNat, ?_, ?_⟩
  · rw [trim_canonical identifier, canonical, String.toList_ofList]
  · refine List.forall₂_map_left_iff.mpr (List.forall₂_same.mpr ?_)
    intro index member
    exact indexes_ofNat (small index member)

@[simp] theorem canonical_key (key : String) : canonical ⟨key, []⟩ = key := by
  rw [canonical, List.map_nil, List.intercalate_singleton, String.ofList_toList]

/-- What is in front of the first dot of a path is its key. -/
theorem Spells.eq_key {text name : String} {path : Path} {rest : List (List Char)} (spells : Spells text path)
    (identifier : IsIdentifier path.key) (dotless : '.' ∉ name.toList)
    (shape : Text.trim text.toList = ['.'].intercalate (name.toList :: rest)) : name = path.key := by
  obtain ⟨segments, same, -⟩ := spells
  have first := takeWhile_intercalate dotless rest
  rw [← shape, same, takeWhile_intercalate (identifier.not_mem rfl)] at first
  exact String.toList_inj.mp first.symm

/-- A path text addresses a value in a document: it spells a key and the indices that lead to the value
from what the key is bound to. -/
def Addresses (document : Document) (text : String) (v : Value) : Prop :=
  ∃ path root, Spells text path ∧ document.get? path.key = some root ∧ root.Leads path.indices v

end Path

namespace Config

open Settings.Path (Spells Addresses)

variable {text : String} {config : Config}

theorem exists_parse_of_ofText (parsed : ofText text = .ok config) :
    ∃ session, ({} : Session).parse text = (.ok config.document, session) ∧
      session.constants = config.constants := by
  rw [ofText] at parsed
  rcases run : ({} : Session).parse text with ⟨_ | document, session⟩
  · rw [run] at parsed
    cases parsed
  · rw [run] at parsed
    cases parsed
    exact ⟨session, rfl, rfl⟩

/-- The keys and constants of a configuration are names, and no array in it has an index that reaches
the length of the text. -/
theorem each_of_ofText (parsed : ofText text = .ok config) :
    config.document.Each (fun key v => IsIdentifier key ∧ v.Within text.length) ∧
      config.constants.Each fun name v => IsIdentifier name ∧ v.Within text.length := by
  have start : ({} : Session).constants.Each fun name v => IsIdentifier name ∧ v.Within text.length :=
    Table.each_empty
  have written : ∀ other, Session.Action.parse text = .parse other →
      ∀ name value, Writes (logicalLines other) name value →
        IsIdentifier name ∧ ∀ v, Statement.literal value = .ok v → v.Within text.length := by
    rintro _ ⟨⟩ name value writes
    refine ⟨writes.onLine.1, ?_⟩
    intro v literal indices node leads index member
    exact ((Statement.literal_eq_ok_iff.mp literal).index_lt leads index member).trans_le writes.length_le
  obtain ⟨session, run, same⟩ := exists_parse_of_ofText parsed
  obtain ⟨constants, documents⟩ := Session.each_act start written
  rw [Session.act, run, same] at constants
  exact ⟨documents config.document (by rw [Session.returned, run, Except.toOption]), constants⟩

theorem isIdentifier_of_get? (parsed : ofText text = .ok config) {key : String} {root : Value}
    (bound : config.document.get? key = some root) : IsIdentifier key :=
  ((each_of_ofText parsed).1 _ (Table.mem_of_get? bound)).1

theorem lookup_eq_some_iff (parsed : ofText text = .ok config) {path : String} {v : Value} :
    config.lookup path = some v ↔ Addresses config.document path v := by
  simp only [lookup, Option.bind_eq_some_iff, Value.at?_eq_some_iff]
  constructor
  · rintro ⟨route, found, root, bound, leads⟩
    exact ⟨route, root, Path.exists_spells_of_ofText? found, bound, leads⟩
  · rintro ⟨route, root, spells, bound, leads⟩
    have identifier := isIdentifier_of_get? parsed bound
    exact ⟨route, spells.ofText? (identifier.not_mem rfl), root, bound, leads⟩

/-- Every node of an entry has a path, the plain one. Its indices are all below the length of the text. -/
theorem addresses_canonical (parsed : ofText text = .ok config) {key : String} {root node : Value}
    {indices : List Nat} (member : (key, root) ∈ config.document.entries) (leads : root.Leads indices node)
    (small : text.length ≤ 2 ^ 64 ∨ indices = []) :
    Addresses config.document (Path.canonical ⟨key, indices⟩) node := by
  obtain ⟨identifier, within⟩ := (each_of_ofText parsed).1 _ member
  refine ⟨⟨key, indices⟩, root, Path.spells_canonical identifier ?_, Table.get?_of_mem member, leads⟩
  intro index inside
  rcases small with short | rfl
  · exact (within leads index inside).trans_le short
  · cases inside

/-- A path whose first part is not a key has no value. -/
theorem lookup_of_not_mem_keys (parsed : ofText text = .ok config) {name path : String}
    {rest : List (List Char)} (dotless : '.' ∉ name.toList) (unbound : name ∉ config.keys)
    (shape : Text.trim path.toList = ['.'].intercalate (name.toList :: rest)) : config.lookup path = none := by
  refine Option.eq_none_iff_forall_ne_some.mpr ?_
  intro v found
  obtain ⟨route, root, spells, bound, -⟩ := (lookup_eq_some_iff parsed).mp found
  rw [spells.eq_key (isIdentifier_of_get? parsed bound) dotless shape] at unbound
  exact unbound (List.mem_map_of_mem (Table.mem_of_get? bound))

/-- Paths find the nodes of the document and nothing else. A path for which there is no node is reported as
it was given. Every entry is found under its key and every node in it under its plain path, unless the text
is so long that an array in it can have more items than there are indices. What is only a constant is found
under no path. -/
theorem getValue_nodes (parsed : ofText text = .ok config) :
    (∀ path,
      (∀ v, config.getValue path = .ok v ↔ Addresses config.document path v) ∧
      (config.has path = true ↔ ∃ v, Addresses config.document path v) ∧
      ((¬ ∃ v, Addresses config.document path v) → config.getValue path = .error (.notFound path))) ∧
    (∀ key root, (key, root) ∈ config.document.entries →
      config.getValue key = .ok root ∧
      (text.length ≤ 2 ^ 64 → ∀ indices node, root.Leads indices node →
        config.getValue (Path.canonical ⟨key, indices⟩) = .ok node)) ∧
    ∀ name v, config.constant? name = some v → name ∉ config.keys →
      ∀ path rest, Text.trim path.toList = ['.'].intercalate (name.toList :: rest) →
        config.has path = false ∧ config.getValue path = .error (.notFound path) := by
  have found (path : String) (v : Value) :
      config.getValue path = .ok v ↔ Addresses config.document path v := by
    rw [getValue_eq_ok_iff, lookup_eq_some_iff parsed]
  have present (path : String) : config.has path = true ↔ ∃ v, Addresses config.document path v := by
    simp only [has, Option.isSome_iff_exists, lookup_eq_some_iff parsed]
  refine ⟨fun path => ⟨found path, present path, ?_⟩, ?_, ?_⟩
  · intro unaddressed
    refine getValue_of_lookup_eq_none (Option.eq_none_iff_forall_ne_some.mpr ?_)
    exact fun v located => unaddressed ⟨v, (lookup_eq_some_iff parsed).mp located⟩
  · intro key root member
    constructor
    · have addresses := addresses_canonical parsed member (.here root) (Or.inr rfl)
      rw [Path.canonical_key] at addresses
      exact (found key root).mpr addresses
    · intro short indices node leads
      exact (found _ node).mpr (addresses_canonical parsed member leads (Or.inl short))
  · intro name v constant unbound path rest shape
    have identifier := ((each_of_ofText parsed).2 _ (Table.mem_of_get? constant)).1
    have absent := lookup_of_not_mem_keys parsed (identifier.not_mem rfl) unbound shape
    exact ⟨by rw [has, absent, Option.isSome_none], getValue_of_lookup_eq_none absent⟩

/-- A path with blanks around it, a plus and zeros in front of a digit, and a constant that is not found. -/
theorem getValue_nodes_grid :
    let text := "n := 4\ngrid : {{1.2}.{3}}"
    let config : Config := ⟨Table.ofList [("grid", .array [.array [.int 1, .int 2], .array [.int 3]])],
      Table.ofList [("n", .int 4)]⟩
    ofText text = .ok config ∧ Addresses config.document " grid.+00.1\t" (.int 2) ∧
      config.getValue " grid.+00.1\t" = .ok (.int 2) ∧ config.getValue "grid.1.0" = .ok (.int 3) ∧
      config.getValue " n.0" = .error (.notFound " n.0") := by
  intro text config
  have parsed : ofText text = .ok config := by
    dsimp only [text]
    with_unfolding_all rfl
  have leads : (Value.array [.array [.int 1, .int 2], .array [.int 3]]).Leads [0, 1] (.int 2) :=
    .item rfl (.item rfl (.here _))
  have spells : Path.Spells " grid.+00.1\t" ⟨"grid", [0, 1]⟩ := by
    refine ⟨["+00".toList, "1".toList], by decide, ?_⟩
    exact .cons (Path.index?_eq_some_iff.mp (by decide)) (.cons (Path.index?_eq_some_iff.mp (by decide)) .nil)
  have addresses : Addresses config.document " grid.+00.1\t" (.int 2) := ⟨_, _, spells, rfl, leads⟩
  obtain ⟨paths, entries, constants⟩ := getValue_nodes parsed
  have plain := (entries _ _ (List.mem_singleton_self _)).2 (by decide) [1, 0] (.int 3)
    (.item rfl (.item rfl (.here _)))
  have absent := constants "n" (.int 4) rfl (by decide) " n.0" [['0']] (by decide)
  exact ⟨parsed, addresses, ((paths _).1 _).mpr addresses, plain, absent.2⟩

end Config

end Settings
