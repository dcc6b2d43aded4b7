import Settings.Proofs.Json.Lexing

namespace Settings

open Json (Lexeme Lexes Ended lexes_enclose)

namespace Value

mutual

/-- The pieces of the JSON text of a value. -/
def pieces : Value → List Lexeme
  | string s => [.string s]
  | number n => [.scalar (.ofNumber n)]
  | array items => .openArray :: List.intercalate [.comma] (itemPieces items) ++ [.closeArray]

def itemPieces : List Value → List (List Lexeme)
  | [] => []
  | v :: rest => pieces v :: itemPieces rest

end

mutual

theorem lexes_render (layout : Layout) :
    (v : Value) → (depth : Nat) → Lexes (v.render layout depth) v.pieces
  | string s, depth => by
    rw [render, pieces]
    exact Json.lexes_quote s
  | number n, depth => by
    rw [render, pieces]
    exact Json.lexes_word (Json.word_number n)
  | array items, depth => by
    rw [render, pieces]
    exact lexes_enclose layout depth rfl rfl rfl (lexes_renderItems layout items (depth + 1))

theorem lexes_renderItems (layout : Layout) :
    (items : List Value) → (depth : Nat) →
      List.Forall₂ Lexes (renderItems layout depth items) (itemPieces items)
  | [], depth => by
    rw [renderItems, itemPieces]
    exact .nil
  | v :: rest, depth => by
    rw [renderItems, itemPieces]
    exact .cons (lexes_render layout v depth) (lexes_renderItems layout rest depth)

end

end Value

namespace Document

def fieldPieces (entry : String × Value) : List Lexeme :=
  .string entry.1 :: .colon :: entry.2.pieces

def pieces (document : Document) : List Lexeme :=
  .openObject :: List.intercalate [.comma] (document.entries.map fieldPieces) ++ [.closeObject]

theorem lexes_renderField (layout : Layout) (entry : String × Value) :
    Lexes (renderField layout entry) (fieldPieces entry) := by
  have value := Value.lexes_render layout entry.2 1
  rw [renderField, List.append_assoc]
  refine (Json.lexes_quote entry.1).append ?_ ?_
  · cases layout <;> exact Ended.cons rfl _
  · cases layout with
    | compact => exact value.mark rfl
    | pretty => exact (value.blank rfl).mark rfl

/-- In either layout the JSON text of a document has the same pieces. -/
theorem lexemes_render (layout : Layout) (document : Document) :
    Json.lexemes (document.render layout).toList = some document.pieces := by
  have fields : List.Forall₂ Lexes (document.entries.map (renderField layout))
      (document.entries.map fieldPieces) := by
    rw [List.forall₂_map_left_iff, List.forall₂_map_right_iff]
    exact List.forall₂_same.mpr fun entry _ => lexes_renderField layout entry
  have lexes : Lexes (layout.enclose 0 '{' '}' (document.entries.map (renderField layout)))
      document.pieces := lexes_enclose layout 0 rfl rfl rfl fields
  have whole := lexes [] nofun
  rw [List.append_nil, Json.lexemes, Option.map_some, List.append_nil] at whole
  rw [render, String.toList_ofList, whole]

end Document

end Settings
