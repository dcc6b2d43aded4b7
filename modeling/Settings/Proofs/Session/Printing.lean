import Settings.Proofs.Literal.Printing
import Settings.Proofs.Session.SingleLine

namespace Settings

namespace Session

/-- What is printed for a value is read as the value, be it a literal by itself, the value of a constant
or the value of an entry. -/
theorem parse_print {v : Value} (expressible : v.Expressible) :
    parseValue (String.ofList v.print) = .ok v ∧
      ∀ (policy : Policy) (name : String), IsIdentifier name → '\n' ∉ v.print →
        (Session.mk .empty policy).parse (name ++ " := " ++ String.ofList v.print) =
          (.ok .empty, ⟨Table.ofList [(name, v)], policy⟩) ∧
        (¬ [':', '='] <:+: v.print →
          (Session.mk .empty policy).parse (name ++ " : " ++ String.ofList v.print) =
            (.ok (Table.ofList [(name, v)]), ⟨.empty, policy⟩)) := by
  have denotes := Literal.denotes_print_of_expressible expressible
  have literal := Statement.literal_eq_ok_iff.mpr denotes
  refine ⟨?_, ?_⟩
  · rw [parseValue_eq_ok_iff, String.toList_ofList, denotes.trim_eq]
    exact Literal.read_eq_ok_iff_denotes.mpr denotes
  intro policy name identifier line
  have start : (Session.mk .empty policy).initial = .empty := by cases policy <;> rfl
  refine ⟨?_, fun undefined => ?_⟩
  · rw [parse_declaration _ identifier line literal, start]
    rfl
  · rw [parse_entry _ identifier line undefined literal, start]
    rfl

/-- An array in an array, an empty one, the least integer, and a string with braces and blanks. -/
theorem parse_print_nested :
    let v : Value := .array [.array [.string r" }{ : #[x] ", .int Int64.minValue], .array [], .string ""]
    v.Expressible ∧ IsIdentifier "k1" ∧ '\n' ∉ v.print ∧ ¬ [':', '='] <:+: v.print ∧
      parseValue (String.ofList v.print) = .ok v ∧
      (Session.mk .empty .reset).parse ("k1" ++ " := " ++ String.ofList v.print) =
        (.ok .empty, ⟨Table.ofList [("k1", v)], .reset⟩) ∧
      (Session.mk .empty .reset).parse ("k1" ++ " : " ++ String.ofList v.print) =
        (.ok (Table.ofList [("k1", v)]), ⟨.empty, .reset⟩) := by
  intro v
  have inner : Value.Element (.array [.string r" }{ : #[x] ", .int Int64.minValue]) := by
    refine .array ?_
    simp only [List.forall_mem_cons]
    exact ⟨.string (by decide) (by decide), .int _, nofun⟩
  have element : v.Element := by
    refine .array ?_
    simp only [List.forall_mem_cons]
    exact ⟨inner, .array nofun, .string (by decide) (by decide), nofun⟩
  have identifier : IsIdentifier "k1" := ⟨'k', ['1'], rfl, rfl, List.forall_mem_singleton.mpr rfl⟩
  have line : '\n' ∉ v.print := by decide
  have undefined : ¬ [':', '='] <:+: v.print := by decide
  obtain ⟨alone, bound⟩ := parse_print (.element element)
  obtain ⟨declared, entered⟩ := bound .reset "k1" identifier line
  exact ⟨.element element, identifier, line, undefined, alone, declared, entered undefined⟩

end Session

end Settings
