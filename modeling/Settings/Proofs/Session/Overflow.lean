import Settings.Proofs.Json.Null
import Settings.Proofs.Json.RoundTrip
import Settings.Proofs.Literal.Overflow
import Settings.Proofs.Session.SingleLine
import Settings.Proofs.Session.Trace

namespace Settings

/-- A JSON text shows the floats of a document: as `null` those that are infinite, and without any of
them, as numbers from which the document is read back. -/
structure Document.Shown (document : Document) (text : String) : Prop where
  null : Json.HasNull text ↔ ∃ entry ∈ document.entries, ∃ negative, entry.2 = .float (.infinite negative)
  numbers : ¬ Json.HasNull text → (Json.read text).bind Document.ofDatum? = some document

namespace Session

/-- The floats of a value are finite, or a text of the run writes the value as a numeral that is too
large. -/
def FiniteOrOverflows (actions : List Action) (v : Value) : Prop :=
  v.Finite ∨ ∃ negative, v = .float (.infinite negative) ∧
    ∃ text name value, .parse text ∈ actions ∧ Writes (logicalLines text) name value ∧
      Literal.Overflows negative value

theorem shown_render {actions : List Action} {document : Document}
    (each : document.Each fun _ v => FiniteOrOverflows actions v) (layout : Layout) :
    document.Shown (document.render layout) where
  null := by
    rw [Document.hasNull_render_iff]
    refine exists_congr fun entry => and_congr_right fun member => ?_
    constructor
    · intro other
      obtain ⟨negative, infinite, -⟩ := (each entry member).resolve_left other
      exact ⟨negative, infinite⟩
    · rintro ⟨negative, infinite⟩ finite
      rw [infinite] at finite
      cases finite
  numbers := by
    rw [Document.hasNull_render_iff]
    intro all
    push Not at all
    rw [Document.read_render, Option.bind_some, Document.ofDatum?_toDatum all]

/-- A run gives infinite floats only where one of its texts writes a numeral that is too large, and just
these are `null` in JSON. -/
theorem shown_trace (policy : Policy) (actions : List Action) :
    (∀ negative value, Statement.literal value = .ok (.float (.infinite negative)) ↔
      Literal.Overflows negative value) ∧
    (∀ session ∈ trace ⟨.empty, policy⟩ actions,
      session.constants.Each fun _ v => FiniteOrOverflows actions v) ∧
    ∀ document ∈ documents ⟨.empty, policy⟩ actions,
      (document.Each fun _ v => FiniteOrOverflows actions v) ∧
      ∀ layout, document.Shown (document.render layout) ∧
        ∀ session ∈ trace ⟨.empty, policy⟩ actions,
          Document.Shown (document.merge session.constants) (document.renderWith layout session.constants) := by
  have written : ∀ text, .parse text ∈ actions → ∀ name value, Writes (logicalLines text) name value →
      True ∧ ∀ v, Statement.literal value = .ok v → FiniteOrOverflows actions v := by
    intro text parsed name value writes
    refine ⟨trivial, fun v literal => ?_⟩
    rcases (Statement.literal_eq_ok_iff.mp literal).finite_or_overflows with finite | ⟨negative, rfl, large⟩
    · exact Or.inl finite
    · exact Or.inr ⟨negative, rfl, text, name, value, parsed, writes, large⟩
  have start : (Session.mk .empty policy).constants.Each fun _ v => True ∧ FiniteOrOverflows actions v :=
    Table.each_empty
  obtain ⟨sessions, documents⟩ := each_trace (P := fun _ => True) start written
  simp only [true_and] at sessions documents
  refine ⟨fun negative value => Statement.literal_eq_ok_iff.trans Literal.denotes_infinite_iff, sessions, ?_⟩
  intro document given
  have each := documents document given
  refine ⟨each, fun layout => ⟨shown_render each layout, fun session member => ?_⟩⟩
  exact shown_render (each.merge (sessions session member)) layout

/-- A numeral that is too large is accepted, and becomes `null`. -/
theorem parse_tooLarge :
    let text := "a" ++ " : " ++ String.ofList Literal.tooLarge
    let document : Document := Table.ofList [("a", .float (.infinite false))]
    (Session.mk .empty .accumulate).parse text = (.ok document, ⟨.empty, .accumulate⟩) ∧
      ¬ (∀ entry ∈ document.entries, entry.2.Finite) ∧
      ∀ layout, Json.HasNull (document.render layout) := by
  intro text document
  have identifier : IsIdentifier "a" := ⟨'a', [], rfl, rfl, nofun⟩
  have line : '\n' ∉ Literal.tooLarge := fun inside =>
    absurd (Literal.overflows_tooLarge.isDigit_of_mem inside) (by decide)
  have noColon : ':' ∉ Literal.tooLarge := fun inside =>
    absurd (Literal.overflows_tooLarge.isDigit_of_mem inside) (by decide)
  have undefined : ¬ [':', '='] <:+: Literal.tooLarge := fun inside => noColon (inside.subset List.mem_cons_self)
  have literal := Statement.literal_eq_ok_iff.mpr
    (Literal.denotes_infinite_iff.mpr Literal.overflows_tooLarge)
  have parsed := parse_entry ⟨.empty, .accumulate⟩ identifier line undefined literal
  have infinite : ∃ entry ∈ document.entries, ¬ entry.2.Finite :=
    ⟨("a", .float (.infinite false)), List.mem_cons_self, nofun⟩
  refine ⟨parsed, ?_, fun layout => (Document.hasNull_render_iff layout document).mpr infinite⟩
  push Not
  exact infinite

end Session

end Settings
