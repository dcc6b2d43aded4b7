import Settings.Proofs.Literal.Fragments
import Settings.Proofs.Literal.Parts
import Settings.Proofs.Value.Parts

namespace Settings.Literal

theorem length_le_intercalate (separator : Char) (parts : List (List Char)) :
    parts.length ≤ ([separator].intercalate parts).length + 1 := by
  induction parts with
  | nil => exact Nat.zero_le 1
  | cons first rest ih =>
    cases rest with
    | nil => exact Nat.le_add_left _ _
    | cons second rest =>
      rw [List.intercalate_cons_cons]
      simp only [List.length_append, List.length_cons, List.length_nil] at ih ⊢
      omega

/-- No array of a literal has more items than the literal has characters. -/
theorem Denotes.index_lt {text : List Char} {v node : Value} {indices : List Nat} (denotes : Denotes text v)
    (leads : v.Leads indices node) : ∀ index ∈ indices, index < text.length := by
  induction denotes using Denotes.elementwise generalizing indices with
  | string characters =>
    cases leads
    exact nofun
  | number text n =>
    cases leads
    exact nofun
  | array segments items _ _ _ all =>
    have separated := length_le_intercalate '.' segments
    have fewer := all.length_eq
    have kept := List.length_filter_le (fun part => decide (part ≠ [])) (segments.map Text.trim)
    rw [List.length_map] at kept
    simp only [List.length_cons, List.length_append, List.length_nil]
    cases leads with
    | here => exact nofun
    | item found onward =>
      obtain ⟨inside, rfl⟩ := List.getElem?_eq_some_iff.mp found
      obtain ⟨segment, member, _, bounded⟩ := exists_segment_of_mem all (List.getElem_mem inside)
      have short := Text.length_trim_le segment
      have part := (infix_intercalate_of_mem member : segment <:+: ['.'].intercalate segments).length_le
      refine List.forall_mem_cons.mpr ⟨by omega, ?_⟩
      intro index later
      have lower := bounded onward index later
      omega

end Settings.Literal
