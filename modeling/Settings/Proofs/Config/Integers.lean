import Settings.Proofs.Config.Paths
import Settings.Proofs.Json.Nodes
import Settings.Proofs.Literal.Integers
import Settings.Proofs.Session.SingleLine
import Settings.Proofs.Statement.Faults

namespace Settings

namespace Literal.Regular

variable {text : List Char}

theorem undefined (regular : Regular text) : ¬ [':', '='] <:+: text :=
  fun inside => regular.not_mem (by decide) (inside.subset List.mem_cons_self)

theorem referent?_eq_none (regular : Regular text) : Statement.referent? text = none := by
  refine Option.eq_none_iff_forall_ne_some.mpr ?_
  intro name refers
  obtain ⟨inner, rfl, -⟩ := Statement.referent?_eq_some_iff.mp refers
  exact regular.not_mem (by decide) List.mem_cons_self

end Literal.Regular

namespace Config

open Literal (Holds InRange Integer)

variable {key path : String} {word text : List Char} {n : Int} {indices : List Nat}

theorem ofText_of_parse {input : String} {result : Except ParseError Document} {session : Session}
    (parsed : ({} : Session).parse input = (result, session)) :
    ofText input = result.map fun document => ⟨document, session.constants⟩ := by
  rw [ofText, parsed]

/-- The only entry of a text has a literal as its value. -/
theorem ofText_entry {root : Value} (identifier : IsIdentifier key) (line : '\n' ∉ text)
    (undefined : ¬ [':', '='] <:+: text) (denotes : Literal.Denotes text root) :
    ofText (key ++ " : " ++ String.ofList text) = .ok ⟨Table.ofList [(key, root)], .empty⟩ :=
  ofText_of_parse (Session.parse_entry {} identifier line undefined (Statement.literal_eq_ok_iff.mpr denotes))

/-- An integer at a path is read as any type whose range it is in, and refused for its size as any other. -/
theorem get_integer {config : Config} {i : Int64} (found : config.lookup path = some (.int i))
    (type : IntegerType) :
    (∀ inside : type.lower ≤ i.toInt ∧ i.toInt ≤ type.upper,
        config.get (.integer type) path = .ok ⟨i.toInt, inside⟩) ∧
      (¬ (type.lower ≤ i.toInt ∧ i.toInt ≤ type.upper) →
        config.get (.integer type) path = .error (.mismatch (.range i type) (some path))) := by
  rw [get_of_lookup found, Target.read, Value.int, Target.toInteger]
  constructor
  · intro inside
    rw [dif_pos inside]
    rfl
  · intro outside
    rw [dif_neg outside]
    rfl

/-- An integer is exact at every width, be it the value of an entry or an item at any depth of an array of
integers. Outside the range of sixty-four bits the text is refused for the digits of the integer, in the
first line. Inside, the indices lead to the integer, every type takes it that can hold it and no other does,
and the JSON text shows its decimal number there. An entry is one line, so no newline stands in its value. -/
theorem ofText_integer (identifier : IsIdentifier key) (written : Integer word n)
    (holds : Holds word indices text) (line : '\n' ∉ text) :
    (¬ InRange n → ofText (key ++ " : " ++ String.ofList text) =
      .error ⟨1, .invalidLiteral (String.ofList word)⟩) ∧
    (InRange n → ∃ (root : Value) (i : Int64) (config : Config),
      ofText (key ++ " : " ++ String.ofList text) = .ok config ∧
      config = ⟨Table.ofList [(key, root)], .empty⟩ ∧ root.Leads indices (.int i) ∧ i.toInt = n ∧
      (text.length ≤ 2 ^ 64 ∨ indices = [] → Path.Spells (Path.canonical ⟨key, indices⟩) ⟨key, indices⟩) ∧
      (∀ (type : IntegerType) (path : String), Path.Spells path ⟨key, indices⟩ →
        (∀ inside : type.lower ≤ n ∧ n ≤ type.upper, config.get (.integer type) path = .ok ⟨n, inside⟩) ∧
        (¬ (type.lower ≤ n ∧ n ≤ type.upper) →
          config.get (.integer type) path = .error (.mismatch (.range i type) (some path)))) ∧
      ∀ layout, ∃ shown, Json.Shows layout (Text.ofInt n) 1 indices shown ∧
        config.document.render layout =
          String.ofList (layout.enclose 0 '{' '}' [Json.quote key ++ layout.colon ++ shown])) := by
  have regular := holds.regular written
  constructor
  · intro outside
    have bad : Statement.literal text = .error (.invalidLiteral (String.ofList word)) := by
      rw [Statement.literal, (holds.rejects written outside).read_eq_error]
      rfl
    exact ofText_of_parse (Session.parse_badEntry {} identifier line regular.trimmed regular.nonempty
      regular.undefined regular.referent?_eq_none bad)
  · intro range
    obtain ⟨root, i, denotes, rfl, leads⟩ := holds.exists_denotes written range
    have parsed := ofText_entry identifier line regular.undefined denotes
    have bound : (Table.ofList [(key, root)]).get? key = some root :=
      Table.get?_of_mem List.mem_cons_self
    refine ⟨root, i, _, parsed, rfl, leads, rfl, ?_, ?_, ?_⟩
    · intro short
      refine Path.spells_canonical identifier fun index member => ?_
      rcases short with short | rfl
      · exact (denotes.index_lt leads index member).trans_le short
      · cases member
    · intro type path spells
      exact get_integer ((lookup_eq_some_iff parsed).mpr ⟨_, root, spells, bound, leads⟩) type
    · intro layout
      exact ⟨root.render layout 1, leads.shows layout 1, rfl⟩

/-- The least integer, in an array behind a blank slot of another array. The type of sixty-four bits with a sign
takes it, the one without a sign does not. -/
theorem ofText_integer_least :
    let word := "-9223372036854775808".toList
    let text := "{ 1 . . { -0007 . -9223372036854775808 } }".toList
    Integer word (-9223372036854775808) ∧ Holds word [1, 1] text ∧ InRange (-9223372036854775808) ∧
      ∃ config, ofText "k1 : { 1 . . { -0007 . -9223372036854775808 } }" = .ok config ∧
        config.get (.integer .signed64) "k1.1.1" = .ok ⟨-9223372036854775808, by decide⟩ ∧
        config.get (.integer .unsigned64) "k1.1.1" =
          .error (.mismatch (.range Int64.minValue .unsigned64) (some "k1.1.1")) := by
  intro word text
  have written : Integer word (-9223372036854775808) :=
    ⟨true, "9223372036854775808".toList, ⟨by simp, by simp⟩, by decide, by decide⟩
  have one : Literal.Integers ['1'] :=
    .integer ⟨false, ['1'], ⟨by simp, by simp⟩, rfl, rfl⟩ (by unfold InRange; decide)
  have seven : Literal.Integers "-0007".toList :=
    .integer ⟨true, "0007".toList, ⟨by simp, by simp⟩, by decide, rfl⟩ (by unfold InRange; decide)
  have inner : Holds word [1] (Text.trim " { -0007 . -9223372036854775808 } ".toList) := by
    have others : ∀ other ∈ [" -0007 ".toList] ++ [], ¬ Text.Blank other → Literal.Integers (Text.trim other) := by
      intro other member _
      rw [List.mem_singleton.mp member]
      exact seven
    have least : Holds word [] (Text.trim " -9223372036854775808 ".toList) := .here
    exact Holds.item others least
  have holds : Holds word [1, 1] text := by
    have others : ∀ other ∈ [" 1 ".toList, " ".toList] ++ [],
        ¬ Text.Blank other → Literal.Integers (Text.trim other) := by
      intro other member visible
      simp only [List.append_nil, List.mem_cons, List.not_mem_nil, or_false] at member
      rcases member with rfl | rfl
      · exact one
      · exact absurd (by decide) visible
    exact Holds.item others inner
  have range : InRange (-9223372036854775808) := by unfold InRange; decide
  have identifier : IsIdentifier "k1" := ⟨'k', ['1'], rfl, rfl, List.forall_mem_singleton.mpr rfl⟩
  obtain ⟨root, i, config, parsed, -, -, same, spells, get, -⟩ :=
    (ofText_integer identifier written holds (by decide)).2 range
  have least : i = Int64.minValue := Int64.toInt_inj.mp same
  subst least
  have spelled : Path.Spells "k1.1.1" ⟨"k1", [1, 1]⟩ := spells (Or.inl (by decide))
  exact ⟨written, holds, range, config, parsed, (get _ _ spelled).1 (by decide), (get _ _ spelled).2 (by decide)⟩

end Config

end Settings
