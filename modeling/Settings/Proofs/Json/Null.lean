import Settings.Proofs.Json.Pieces
import Settings.Proofs.Literal.Segments

namespace Settings

/-- The word `null` stands in a JSON text outside its string literals. -/
def Json.HasNull (text : String) : Prop :=
  ∃ pieces, Json.lexemes text.toList = some pieces ∧ .scalar .null ∈ pieces

namespace Value

theorem finite_number_iff (n : Number) : Finite (.number n) ↔ Json.Datum.ofNumber n ≠ .null := by
  constructor
  · intro finite
    cases finite <;> exact nofun
  · intro shown
    match n with
    | .int n => exact .int n
    | .float (.finite negative code) => exact .float negative code
    | .float (.infinite negative) => exact absurd rfl shown
    | .float .nan => exact absurd rfl shown

mutual

/-- A piece of the JSON text of a value is `null` just if there is a float in it that is not finite. -/
theorem null_mem_pieces_iff : (v : Value) → (.scalar .null ∈ v.pieces ↔ ¬ v.Finite)
  | string s => by
    rw [pieces, List.mem_singleton]
    exact iff_of_false nofun fun infinite => infinite (.string s)
  | number n => by
    rw [pieces, List.mem_singleton, Json.Lexeme.scalar.injEq, finite_number_iff, not_not, eq_comm]
  | array items => by
    have inside := exists_null_mem_itemPieces_iff items
    simp only [pieces, List.mem_append, List.mem_cons, Literal.mem_intercalate_iff, reduceCtorEq,
      List.not_mem_nil, false_or, or_false, false_and, inside]
    constructor
    · rintro ⟨item, member, infinite⟩ finite
      cases finite with
      | array all => exact infinite (all item member)
    · intro infinite
      by_contra none
      push Not at none
      exact infinite (.array none)

theorem exists_null_mem_itemPieces_iff :
    (items : List Value) → ((∃ part ∈ itemPieces items, .scalar .null ∈ part) ↔ ∃ item ∈ items, ¬ item.Finite)
  | [] => by
    rw [itemPieces]
    exact iff_of_false (by simp) (by simp)
  | v :: rest => by
    rw [itemPieces, List.exists_mem_cons_iff, List.exists_mem_cons_iff, null_mem_pieces_iff v,
      exists_null_mem_itemPieces_iff rest]

end

end Value

namespace Document

/-- There is a `null` in the JSON text of a document just if a float in it is not finite. -/
theorem hasNull_render_iff (layout : Layout) (document : Document) :
    Json.HasNull (document.render layout) ↔ ∃ entry ∈ document.entries, ¬ entry.2.Finite := by
  have whole : Json.HasNull (document.render layout) ↔ .scalar .null ∈ document.pieces := by
    rw [Json.HasNull, lexemes_render]
    simp only [Option.some.injEq, exists_eq_left']
  rw [whole]
  simp only [pieces, List.mem_append, List.mem_cons, Literal.mem_intercalate_iff, List.mem_map, fieldPieces,
    reduceCtorEq, List.not_mem_nil, false_or, or_false, false_and, exists_exists_and_eq_and,
    Value.null_mem_pieces_iff]

end Document

end Settings
