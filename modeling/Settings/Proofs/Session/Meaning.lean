import Settings.Proofs.Session.Run

namespace Settings

/-- The names that lines declare, each with its value text. -/
def declaredBy (lines : List SourceLine) : List (String × List Char) :=
  lines.filterMap fun line => Statement.declared? line.text

/-- The keys that lines make entries of, each with its value text. -/
def enteredBy (lines : List SourceLine) : List (String × List Char) :=
  lines.filterMap fun line => Statement.entered? line.text

/-- What a constant is behind the lines: the literal of its last declaration in them, and what it
was at the start if they do not declare it. -/
def constantAfter (start : Constants) (lines : List SourceLine) (name : String) : Option Value :=
  match (declaredBy lines).reverse.lookup name with
  | some text => (Statement.literal text).toOption
  | none => start.get? name

/-- The constants behind the lines: those of the start in their places, and then the new names as
they are declared first. -/
structure Declares (start : Constants) (lines : List SourceLine) (constants : Constants) : Prop where
  names : constants.keys =
    start.keys ++ (((declaredBy lines).map Prod.fst).filter (· ∉ start.keys)).eraseDups
  values (name : String) : constants.get? name = constantAfter start lines name

/-- The document of the lines: the keys as they are entered first, each with the value of its last
entry at the place where that entry stands. -/
structure Enters (start : Constants) (lines : List SourceLine) (document : Document) : Prop where
  keys : document.keys = ((enteredBy lines).map Prod.fst).eraseDups
  values {before after : List SourceLine} {line : SourceLine} {key : String} {text : List Char}
    (division : lines = before ++ line :: after) (enters : Statement.entered? line.text = some (key, text))
    (last : key ∉ (enteredBy after).map Prod.fst) :
    ∃ v, document.get? key = some v ∧ Statement.valueWith (constantAfter start before) text = some v

/-- A declaration with the value of its text. -/
def Declared (binding : String × List Char) (declaration : String × Value) : Prop :=
  declaration.1 = binding.1 ∧ Statement.literal binding.2 = .ok declaration.2

theorem names_of_declared {bindings : List (String × List Char)} {declarations : List (String × Value)}
    (declared : List.Forall₂ Declared bindings declarations) :
    declarations.map Prod.fst = bindings.map Prod.fst := by
  induction declared with
  | nil => rfl
  | cons first _ ih => rw [List.map_cons, List.map_cons, first.1, ih]

theorem lookup_of_declared {bindings : List (String × List Char)} {declarations : List (String × Value)}
    (declared : List.Forall₂ Declared bindings declarations) (name : String) :
    (bindings.lookup name = none ∧ declarations.lookup name = none) ∨
      ∃ text v, bindings.lookup name = some text ∧ Statement.literal text = .ok v ∧
        declarations.lookup name = some v := by
  induction declared with
  | nil => exact Or.inl ⟨rfl, rfl⟩
  | @cons binding declaration _ _ first _ ih =>
    obtain ⟨same, value⟩ := first
    rw [List.lookup_cons, List.lookup_cons, same]
    cases name == binding.1 with
    | false => exact ih
    | true => exact Or.inr ⟨binding.2, declaration.2, rfl, value, rfl⟩

theorem declaredBy_cons (line : SourceLine) (rest : List SourceLine) :
    declaredBy (line :: rest) = match Statement.declared? line.text with
      | none => declaredBy rest
      | some binding => binding :: declaredBy rest := by
  rw [declaredBy, List.filterMap_cons]
  cases Statement.declared? line.text <;> rfl

theorem enteredBy_cons (line : SourceLine) (rest : List SourceLine) :
    enteredBy (line :: rest) = match Statement.entered? line.text with
      | none => enteredBy rest
      | some binding => binding :: enteredBy rest := by
  rw [enteredBy, List.filterMap_cons]
  cases Statement.entered? line.text <;> rfl

namespace Bindings

/-- Lines without a fault bind what they declare and enter, one after the other. -/
theorem exists_insertAll {bindings final : Bindings} {lines : List SourceLine}
    (succeeded : bindings.readLines lines = (final, none)) :
    ∃ declarations entries,
      final = ⟨bindings.constants.insertAll declarations, bindings.document.insertAll entries⟩ ∧
      List.Forall₂ Declared (declaredBy lines) declarations ∧
      entries.map Prod.fst = (enteredBy lines).map Prod.fst := by
  induction lines generalizing bindings with
  | nil =>
    cases succeeded
    exact ⟨[], [], rfl, .nil, rfl⟩
  | cons line rest ih =>
    obtain ⟨next, read, later⟩ := readLines_eq_ok_cons succeeded
    obtain ⟨declarations, entries, bound, declared, entered⟩ := ih later
    rcases readLine_eq_ok_cases read with ⟨blank, rfl⟩ | ⟨name, text, v, declares, value, rfl⟩ |
      ⟨key, text, v, enters, value, rfl⟩
    · refine ⟨declarations, entries, bound, ?_, ?_⟩
      · rw [declaredBy_cons, Statement.declared?_of_blank blank]
        exact declared
      · rw [enteredBy_cons, Statement.entered?_of_blank blank]
        exact entered
    · refine ⟨(name, v) :: declarations, entries, bound, ?_, ?_⟩
      · rw [declaredBy_cons, declares]
        exact .cons ⟨rfl, value⟩ declared
      · rw [enteredBy_cons, Statement.entered?_of_declared? declares]
        exact entered
    · refine ⟨declarations, (key, v) :: entries, bound, ?_, ?_⟩
      · rw [declaredBy_cons, Statement.declared?_of_entered? enters]
        exact declared
      · rw [enteredBy_cons, enters, List.map_cons, List.map_cons]
        exact congrArg (key :: ·) entered

theorem declares_of_readLines {bindings final : Bindings} {lines : List SourceLine}
    (succeeded : bindings.readLines lines = (final, none)) :
    Declares bindings.constants lines final.constants := by
  obtain ⟨declarations, entries, rfl, declared, _⟩ := exists_insertAll succeeded
  refine ⟨?_, ?_⟩
  · rw [Table.keys_insertAll, names_of_declared declared]
  · intro name
    rw [Table.get?_insertAll, constantAfter]
    rcases lookup_of_declared (List.rel_reverse declared) name with ⟨undeclared, unbound⟩ |
      ⟨text, v, last, value, bound⟩
    · rw [undeclared, unbound, Option.none_or]
    · rw [last, bound, Option.some_or]
      show some v = (Statement.literal text).toOption
      rw [value]
      rfl

/-- Lines that do not enter a key leave it as it is. -/
theorem get?_of_readLines {bindings final : Bindings} {lines : List SourceLine} {key : String}
    (succeeded : bindings.readLines lines = (final, none))
    (absent : key ∉ (enteredBy lines).map Prod.fst) :
    final.document.get? key = bindings.document.get? key := by
  obtain ⟨declarations, entries, rfl, _, entered⟩ := exists_insertAll succeeded
  rw [← entered] at absent
  have unbound : entries.reverse.lookup key = none := by
    refine List.lookup_eq_none_iff.mpr ?_
    intro entry member
    refine bne_iff_ne.mpr ?_
    rintro rfl
    exact absent (List.mem_map_of_mem (List.mem_reverse.mp member))
  rw [Table.get?_insertAll, unbound, Option.none_or]

theorem enters_of_readLines {start : Constants} {final : Bindings} {lines : List SourceLine}
    (succeeded : readLines ⟨start, .empty⟩ lines = (final, none)) : Enters start lines final.document := by
  refine ⟨?_, ?_⟩
  · obtain ⟨declarations, entries, rfl, _, entered⟩ := exists_insertAll succeeded
    rw [Table.keys_insertAll, entered]
    simp [Table.empty, Table.keys]
  · intro before after line key text division enters last
    subst division
    obtain ⟨between, front, rest⟩ := exists_of_readLines_append succeeded
    obtain ⟨next, read, back⟩ := readLines_eq_ok_cons rest
    have constants : between.constants.get? = constantAfter start before :=
      funext (declares_of_readLines front).values
    have kept := get?_of_readLines back last
    rcases readLine_eq_ok_cases read with ⟨blank, _⟩ | ⟨_, _, _, declares, _⟩ |
      ⟨key', text', v, enters', value, rfl⟩
    · rw [Statement.entered?_of_blank blank] at enters
      cases enters
    · rw [Statement.entered?_of_declared? declares] at enters
      cases enters
    · rw [enters'] at enters
      cases enters
      refine ⟨v, ?_, ?_⟩
      · rw [kept, Table.get?_insert, if_pos rfl]
      · rw [← constants]
        exact value

end Bindings

namespace Session

/-- What a text without a fault means, read off its lines. -/
theorem parse_meaning {session next : Session} {text : String} {document : Document}
    (succeeded : session.parse text = (.ok document, next)) :
    Enters session.initial (logicalLines text) document ∧
      Declares session.initial (logicalLines text) next.constants := by
  obtain ⟨constants, run, rfl⟩ := parse_eq_ok_iff.mp succeeded
  exact ⟨Bindings.enters_of_readLines run, Bindings.declares_of_readLines run⟩

/-- A key and two constants that are bound again, one of them from an earlier text. -/
theorem parse_meaning_rebound :
    (Session.mk (Table.ofList [("n", .int 7), ("m", .int 8)]) .accumulate).parse
        "a : #[n]\nb : 'b'\nn := 1\n=begin\nn := 9\n=cut\nk := 5\na : #[n]\nn := 2\n" =
      (.ok (Table.ofList [("a", .int 1), ("b", .string "b")]),
        ⟨Table.ofList [("n", .int 2), ("m", .int 8), ("k", .int 5)], .accumulate⟩) ∧
    Enters (Table.ofList [("n", .int 7), ("m", .int 8)])
      (logicalLines "a : #[n]\nb : 'b'\nn := 1\n=begin\nn := 9\n=cut\nk := 5\na : #[n]\nn := 2\n")
      (Table.ofList [("a", .int 1), ("b", .string "b")]) ∧
    Declares (Table.ofList [("n", .int 7), ("m", .int 8)])
      (logicalLines "a : #[n]\nb : 'b'\nn := 1\n=begin\nn := 9\n=cut\nk := 5\na : #[n]\nn := 2\n")
      (Table.ofList [("n", .int 2), ("m", .int 8), ("k", .int 5)]) := by
  have succeeded : (Session.mk (Table.ofList [("n", .int 7), ("m", .int 8)]) .accumulate).parse
      "a : #[n]\nb : 'b'\nn := 1\n=begin\nn := 9\n=cut\nk := 5\na : #[n]\nn := 2\n" =
      (.ok (Table.ofList [("a", .int 1), ("b", .string "b")]),
        ⟨Table.ofList [("n", .int 2), ("m", .int 8), ("k", .int 5)], .accumulate⟩) := by
    with_unfolding_all rfl
  exact ⟨succeeded, parse_meaning succeeded⟩

end Session

end Settings
