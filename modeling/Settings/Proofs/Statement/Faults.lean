import Settings.Proofs.Literal.Fragments
import Settings.Proofs.Statement.Binding

namespace Settings

/-- What a fault says is true of a line without blanks around it, where the names that are known can be
referred to. -/
def Fault.TrueOf (known : String → Prop) (text : List Char) : Fault → Prop
  | .malformedDeclaration shown =>
    shown = String.ofList text ∧ [':', '='] <:+: text ∧ ∀ name value, ¬ Statement.Binds .define name value text
  | .malformedEntry shown =>
    shown = String.ofList text ∧ ¬ [':', '='] <:+: text ∧ ∀ key value, ¬ Statement.Binds .colon key value text
  | .invalidLiteral fragment =>
    fragment.toList ≠ [] ∧ Text.trim fragment.toList = fragment.toList ∧
      ∃ operator name value, (operator = .define ∨ operator = .colon) ∧
        Statement.Binds operator name value text ∧ (∀ v, ¬ Literal.Denotes value v) ∧
        fragment.toList <:+: value
  | .undefinedConstant name =>
    ¬ [':', '='] <:+: text ∧ ¬ known name ∧
      ∃ key inner, Statement.Binds .colon key ('#' :: '[' :: (inner ++ [']'])) text ∧
        name = String.ofList (Text.trim inner)

namespace Statement

theorem referent?_eq_some_iff {text : List Char} {name : String} :
    referent? text = some name ↔
      ∃ inner, text = '#' :: '[' :: (inner ++ [']']) ∧ name = String.ofList (Text.trim inner) := by
  constructor
  · intro refers
    rw [referent?.eq_def] at refers
    split at refers
    · obtain ⟨inner, inside, rfl⟩ := Option.map_eq_some_iff.mp refers
      exact ⟨inner, by rw [Text.eq_of_enclosed? inside], rfl⟩
    · cases refers
  · rintro ⟨inner, rfl, rfl⟩
    rw [referent?, Text.enclosed?_eq_some_iff.mpr rfl, Option.map_some]

theorem exists_of_literal_error {text : List Char} {fault : Fault} (failed : literal text = .error fault) :
    ∃ fragment, Literal.read text = .error fragment ∧ fault = .invalidLiteral (String.ofList fragment) := by
  rw [literal] at failed
  cases read : Literal.read text with
  | ok v =>
    rw [read] at failed
    cases failed
  | error fragment =>
    rw [read] at failed
    cases failed
    exact ⟨fragment, rfl, rfl⟩

/-- All that can be wrong with a line by itself. -/
theorem ofLine_eq_error_cases {line : List Char} {fault : Fault} (failed : ofLine line = .error fault) :
    mentionsDefine (Text.trim line) = true ∧ binding? .define (Text.trim line) = none ∧
        fault = .malformedDeclaration (String.ofList (Text.trim line)) ∨
      mentionsDefine (Text.trim line) = false ∧ binding? .colon (Text.trim line) = none ∧
        fault = .malformedEntry (String.ofList (Text.trim line)) ∨
      ∃ operator name value, (operator = .define ∨ operator = .colon) ∧
        binding? operator (Text.trim line) = some (name, value) ∧ literal value = .error fault := by
  rw [ofLine] at failed
  split at failed
  · cases failed
  split at failed
  · rename_i mentioned
    split at failed
    · rename_i unbound
      cases failed
      exact Or.inl ⟨mentioned, unbound, rfl⟩
    · rename_i name value bound
      exact Or.inr (Or.inr ⟨.define, name, value, Or.inl rfl, bound, eq_error_of_map_eq_error failed⟩)
  · rename_i unmentioned
    split at failed
    · rename_i unbound
      cases failed
      exact Or.inr (Or.inl ⟨Bool.eq_false_iff.mpr unmentioned, unbound, rfl⟩)
    · rename_i key value bound
      split at failed
      · cases failed
      · exact Or.inr (Or.inr ⟨.colon, key, value, Or.inr rfl, bound, eq_error_of_map_eq_error failed⟩)

theorem not_binds_of_binding? {operator : Token} {text : List Char}
    (known : operator = .define ∨ operator = .colon) (unbound : binding? operator text = none) (name : String)
    (value : List Char) : ¬ Binds operator name value text := by
  intro binds
  rw [(binding?_eq_some_iff known).mpr binds] at unbound
  cases unbound

/-- What is said to be wrong with a line is wrong with it. -/
theorem trueOf_of_ofLine {line : List Char} {fault : Fault} (known : String → Prop)
    (failed : ofLine line = .error fault) : fault.TrueOf known (Text.trim line) := by
  rcases ofLine_eq_error_cases failed with ⟨mentioned, unbound, rfl⟩ | ⟨unmentioned, unbound, rfl⟩ |
    ⟨operator, name, value, operates, bound, wrong⟩
  · exact ⟨rfl, mentionsDefine_iff.mp mentioned, not_binds_of_binding? (Or.inl rfl) unbound⟩
  · refine ⟨rfl, ?_, not_binds_of_binding? (Or.inr rfl) unbound⟩
    rw [← mentionsDefine_iff, unmentioned]
    exact Bool.false_ne_true
  · have binds := (binding?_eq_some_iff operates).mp bound
    obtain ⟨fragment, read, rfl⟩ := exists_of_literal_error wrong
    have rejects := Literal.rejects_of_read_error read
    rw [Fault.TrueOf, String.toList_ofList]
    refine ⟨rejects.ne_nil binds.value_ne_nil, rejects.trim_eq binds.trim_value, operator, name, value, operates,
      binds, ?_, rejects.isInfix⟩
    intro v denotes
    rw [literal_eq_ok_iff.mpr denotes] at wrong
    cases wrong

end Statement

end Settings
