import Settings.Proofs.Json.RoundTrip
import Settings.Proofs.Value.Parts

namespace Settings

/-- A JSON text shows a part at the place to which indices lead. In every array on the way the parts between
the brackets are JSON texts, so there is no other way to count them. -/
inductive Json.Shows (layout : Layout) (part : List Char) : Nat → List Nat → List Char → Prop
  | here (depth : Nat) : Shows layout part depth [] part
  | item {depth index : Nat} {indices : List Nat} {parts : List (List Char)} {text : List Char} :
      (∀ other ∈ parts, ∃ datum, Json.read (String.ofList other) = some datum) →
      parts[index]? = some text → Shows layout part (depth + 1) indices text →
      Shows layout part depth (index :: indices) (layout.enclose depth '[' ']' parts)

open Json (Shows)

namespace Value

theorem renderItems_eq_map (layout : Layout) (depth : Nat) (items : List Value) :
    renderItems layout depth items = items.map (render layout depth) := by
  induction items with
  | nil => simp [renderItems]
  | cons v rest ih => simp [renderItems, ih]

/-- The JSON text of a value is read by itself as what the value becomes in JSON. -/
theorem read_render (layout : Layout) (depth : Nat) (v : Value) :
    Json.read (String.ofList (v.render layout depth)) = some v.toDatum := by
  have lexemes : Json.lexemes (v.render layout depth) = some v.pieces := by
    have whole := v.lexes_render layout depth [] nofun
    rwa [List.append_nil, Json.lexemes, Option.map_some, List.append_nil] at whole
  rw [Json.read, String.toList_ofList, lexemes, Option.bind_some, foldlM_pieces]

/-- Where indices lead to in a value its JSON text shows the JSON text of the node. -/
theorem Leads.shows {root node : Value} {indices : List Nat} (leads : root.Leads indices node) (layout : Layout)
    (depth : Nat) :
    Shows layout (node.render layout (depth + indices.length)) depth indices (root.render layout depth) := by
  induction leads generalizing depth with
  | here => exact .here depth
  | @item items index rest v node found _ ih =>
    have inner := ih (depth + 1)
    rw [Nat.add_right_comm] at inner
    rw [render, renderItems_eq_map]
    refine .item ?_ (by simp [found]) inner
    intro part member
    obtain ⟨item, -, rfl⟩ := List.mem_map.mp member
    exact ⟨_, read_render layout (depth + 1) item⟩

end Value

end Settings
