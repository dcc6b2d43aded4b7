import Settings.Proofs.Session.Reordering
import Settings.Proofs.Table.Equality
import Settings.Proofs.Value.Equality
import Settings.Value

namespace Settings.Document

/-- A document equals itself just if every number in it is one. -/
theorem beq_self_iff_numeric {document : Document} :
    (document == document) = true ↔ ∀ entry ∈ document.entries, ¬ Value.Part (.float .nan) entry.2 :=
  Table.beq_self_iff.trans (forall₂_congr fun _ _ => Value.equal_self_iff)

/-- Documents are equal as maps: just if they have the same keys with equal values, in any order. Equality of
values and of documents is symmetric and transitive, and only floats that are not numbers keep it from being
reflexive, so every document that is read equals itself. No integer equals a float. Documents and constants
that are equal have equal merges. -/
theorem beq_maps :
    (∀ left right : Document, (left == right) = true ↔
      (∀ key, key ∈ left.keys ↔ key ∈ right.keys) ∧ ∀ key, (left.get? key == right.get? key) = true) ∧
    (∀ u v w : Value, (u == v) = (v == u) ∧ ((u == v) = true → (v == w) = true → (u == w) = true)) ∧
    (∀ a b c : Document, (a == b) = (b == a) ∧ ((a == b) = true → (b == c) = true → (a == c) = true)) ∧
    (∀ v : Value, (v == v) = true ↔ ¬ Value.Part (.float .nan) v) ∧
    (∀ document : Document, (document == document) = true ↔
      ∀ entry ∈ document.entries, ¬ Value.Part (.float .nan) entry.2) ∧
    (∀ (session next : Session) (text : String) (document : Document), session.Reachable →
      session.parse text = (.ok document, next) → (document == document) = true) ∧
    (∀ (n : Int64) (x : Double), (Value.int n == Value.float x) = false ∧ (Value.float x == Value.int n) = false) ∧
    ∀ (left right : Document) (lower upper : Constants), (left == right) = true → (lower == upper) = true →
      (left.merge lower == right.merge upper) = true := by
  refine ⟨?_, ?_, ?_, fun v => Value.equal_self_iff, fun document => beq_self_iff_numeric, ?_, ?_, ?_⟩
  · intro left right
    rw [Table.beq_iff]
    exact ⟨fun same => ⟨fun key => Table.mem_keys_iff_of_beq (same key), same⟩, And.right⟩
  · exact fun u v w => ⟨BEq.comm, PartialEquivBEq.trans⟩
  · exact fun a b c => ⟨BEq.comm, PartialEquivBEq.trans⟩
  · intro session next text document reachable parsed
    exact Table.beq_self_iff.mpr (reachable.beq_self parsed)
  · intro n x
    constructor <;> rfl
  · exact fun left right lower upper => Table.merge_congr

/-- Both zeros under one key and a constant laid over an entry, with other orders on the other side. -/
theorem beq_maps_zeros :
    let left : Document := Table.ofList [("k", .float (.finite false ⟨0, by decide⟩)), ("m", .array [.int 1])]
    let right : Document := Table.ofList [("m", .array [.int 1]), ("k", .float (.finite true ⟨0, by decide⟩))]
    let lower : Constants := Table.ofList [("c", .string "x"), ("m", .int 2)]
    let upper : Constants := Table.ofList [("m", .int 2), ("c", .string "x")]
    let session : Session := ⟨.empty, .accumulate⟩
    let read : Document := Table.ofList [("m", .array [.int 1])]
    (left == right) = true ∧ (right == left) = true ∧ (left == left) = true ∧
      session.Reachable ∧ session.parse "m : {1}" = (.ok read, session) ∧ (read == read) = true ∧
      (lower == upper) = true ∧ (left.merge lower == right.merge upper) = true ∧
      (left.merge lower).keys = ["k", "m", "c"] ∧ (right.merge upper).keys = ["m", "k", "c"] := by
  intro left right lower upper session read
  have same : (left == right) = true := by decide
  have above : (lower == upper) = true := by decide
  have reachable : session.Reachable := ⟨.accumulate, [], List.mem_singleton_self _⟩
  have parsed : session.parse "m : {1}" = (.ok read, session) := by with_unfolding_all rfl
  obtain ⟨-, -, equivalence, -, -, reflexive, -, merges⟩ := beq_maps
  have back : (right == left) = true := (equivalence left right right).1.symm.trans same
  exact ⟨same, back, (equivalence left right left).2 same back, reachable, parsed,
    reflexive session session _ read reachable parsed, above, merges left right lower upper same above,
    by decide, by decide⟩

end Settings.Document
