import Settings.Proofs.Json.Pieces

namespace Settings

namespace Json

/-- The states between which the elements of an array or object are read. -/
structure Elements (α : Type) where
  /-- Where the next element comes, behind those that have been read. -/
  enter : List α → State
  /-- Where an element has been read behind others. -/
  leave : List α → α → State
  finish : List α → State
  close : Lexeme
  step_comma : ∀ done a, step (leave done a) .comma = some (enter (done ++ [a]))
  step_close : ∀ done a, step (leave done a) close = some (finish (done ++ [a]))

namespace Elements

def items (outer : List Frame) : Elements Datum where
  enter done := .value (.array done :: outer)
  leave done datum := .behind datum (.array done :: outer)
  finish all := .behind (.array all) outer
  close := .closeArray
  step_comma _ _ := rfl
  step_close _ _ := rfl

def fields (outer : List Frame) : Elements (String × Datum) where
  enter done := .nextKey done outer
  leave done field := .behind field.2 (.object done field.1 :: outer)
  finish all := .behind (.object all) outer
  close := .closeObject
  step_comma _ _ := rfl
  step_close _ _ := rfl

variable {α : Type} (elements : Elements α)

/-- A part of a text is read as one element, whatever elements come before it. -/
def Reads (part : List Lexeme) (a : α) : Prop :=
  ∀ done, part.foldlM step (elements.enter done) = some (elements.leave done a)

/-- Parts with commas between them are read as the elements that they are read as one by one. -/
theorem foldlM_intercalate {parts : List (List Lexeme)} {all : List α} (nonempty : parts ≠ [])
    (reads : List.Forall₂ elements.Reads parts all) (done : List α) :
    (List.intercalate [.comma] parts ++ [elements.close]).foldlM step (elements.enter done) =
      some (elements.finish (done ++ all)) := by
  induction reads generalizing done with
  | nil => exact absurd rfl nonempty
  | @cons part a parts all first later ih =>
    cases later with
    | nil =>
      rw [List.intercalate_singleton, List.foldlM_append, first, Option.bind_eq_bind, Option.bind_some,
        List.foldlM_cons, elements.step_close]
      rfl
    | cons second rest =>
      have more := ih (List.cons_ne_nil _ _) (done ++ [a])
      rw [List.append_assoc] at more
      rw [List.intercalate_cons_cons, List.append_assoc, List.append_assoc, List.foldlM_append, first,
        Option.bind_eq_bind, Option.bind_some, List.singleton_append, List.foldlM_cons,
        elements.step_comma]
      exact more

end Elements

theorem exists_intercalate (separator first : List Lexeme) (rest : List (List Lexeme)) :
    ∃ later, List.intercalate separator (first :: rest) = first ++ later := by
  cases rest with
  | nil => exact ⟨[], by rw [List.intercalate_singleton, List.append_nil]⟩
  | cons second rest => exact ⟨_, by rw [List.intercalate_cons_cons, List.append_assoc]⟩

end Json

open Json (Frame Elements step)

namespace Value

/-- Where a value may come, and where it may close the array that has just been opened, its pieces are
read alike. -/
theorem foldlM_firstItem (v : Value) (outer : List Frame) (later : List Json.Lexeme) :
    (v.pieces ++ later).foldlM step (.firstItem outer) =
      (v.pieces ++ later).foldlM step (.value (.array [] :: outer)) := by
  cases v <;> rfl

mutual

/-- The pieces of a value are read as the value, whatever is open around it. -/
theorem foldlM_pieces :
    (v : Value) → (outer : List Frame) →
      v.pieces.foldlM step (.value outer) = some (.behind v.toDatum outer)
  | string s, outer => by
    rw [pieces, toDatum]
    rfl
  | number n, outer => by
    rw [pieces, toDatum]
    rfl
  | array items, outer => by
    have reads := reads_itemPieces items outer
    rw [pieces, toDatum]
    cases items with
    | nil => rfl
    | cons v rest =>
      rw [itemPieces] at reads ⊢
      have read := (Elements.items outer).foldlM_intercalate (List.cons_ne_nil _ _) reads []
      -- The first item is read where the array could also be closed.
      obtain ⟨later, first⟩ := Json.exists_intercalate [.comma] v.pieces (itemPieces rest)
      rw [first, List.append_assoc] at read
      rw [first, List.cons_append, List.append_assoc]
      exact (foldlM_firstItem v outer _).trans read

theorem reads_itemPieces :
    (items : List Value) → (outer : List Frame) →
      List.Forall₂ (Elements.items outer).Reads (itemPieces items) (toData items)
  | [], outer => by
    rw [itemPieces, toData]
    exact .nil
  | v :: rest, outer => by
    rw [itemPieces, toData]
    exact .cons (fun done => foldlM_pieces v (.array done :: outer)) (reads_itemPieces rest outer)

end

end Value

namespace Document

theorem reads_fieldPieces (entry : String × Value) :
    (Elements.fields []).Reads (fieldPieces entry) (entry.1, entry.2.toDatum) :=
  fun done => entry.2.foldlM_pieces [.object done entry.1]

/-- The JSON text of a document is read as the object of its entries, in either layout. -/
theorem read_render (layout : Layout) (document : Document) :
    Json.read (document.render layout) = some document.toDatum := by
  have read : document.pieces.foldlM step (.value []) = some (.behind document.toDatum []) := by
    rw [pieces, toDatum]
    have reads : List.Forall₂ (Elements.fields []).Reads (document.entries.map fieldPieces)
        (document.entries.map fun entry => (entry.1, entry.2.toDatum)) := by
      rw [List.forall₂_map_left_iff, List.forall₂_map_right_iff]
      exact List.forall₂_same.mpr fun entry _ => reads_fieldPieces entry
    cases entries : document.entries with
    | nil => rfl
    | cons entry rest =>
      rw [entries, List.map_cons] at reads
      have fields := (Elements.fields []).foldlM_intercalate (List.cons_ne_nil _ _) reads []
      obtain ⟨later, first⟩ :=
        Json.exists_intercalate [.comma] (fieldPieces entry) (rest.map fieldPieces)
      rw [first] at fields
      rw [List.map_cons, first]
      exact fields
  rw [Json.read, lexemes_render, Option.bind_some, read]

/-- A document whose floats are finite is what its JSON text, in either layout, is read as: with the same
keys in their order, the same texts and integers, and floats with the same bits. -/
theorem ofDatum?_read_render (layout : Layout) {document : Document}
    (finite : ∀ entry ∈ document.entries, entry.2.Finite) :
    (Json.read (document.render layout)).bind ofDatum? = some document := by
  rw [read_render, Option.bind_some, ofDatum?_toDatum finite]

/-- The integer and the float two, both zeros, the greatest float, the least integer, escapes in a key and
in a text, and arrays inside an array. -/
theorem ofDatum?_read_render_mixed :
    let document : Document := ⟨[
      ("two", .int 2),
      ("float two", .float (.finite false ⟨0x4000000000000000, by decide⟩)),
      ("zeros", .array [.float (.finite false ⟨0, by decide⟩), .float (.finite true ⟨0, by decide⟩)]),
      ("greatest\t", .float (.finite false ⟨0x7FEFFFFFFFFFFFFF, by decide⟩)),
      ("", .array [.array [], .array [.int Int64.minValue, .string "\"\\\x00é"]])], by decide⟩
    (∀ entry ∈ document.entries, entry.2.Finite) ∧
      (Json.read (document.render .pretty)).bind ofDatum? = some document := by
  intro document
  have finite : ∀ entry ∈ document.entries, entry.2.Finite := by
    simp only [document, List.forall_mem_cons]
    refine ⟨.int _, .float _ _, .array ?_, .float _ _, .array ?_, nofun⟩
    · simp only [List.forall_mem_cons]
      exact ⟨.float _ _, .float _ _, nofun⟩
    · simp only [List.forall_mem_cons]
      refine ⟨.array nofun, .array ?_, nofun⟩
      simp only [List.forall_mem_cons]
      exact ⟨.int _, .string _, nofun⟩
  exact ⟨finite, ofDatum?_read_render .pretty finite⟩

end Document

end Settings
