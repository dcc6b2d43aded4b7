import Settings.Json.Rendering
import Settings.Json.Tree
import Settings.Proofs.Json.Numbers

namespace Settings

namespace Json

/-- Where a character of a JSON text stands: outside string literals, inside one, or inside one right behind
the backslash of an escape. -/
inductive Place
  | outside
  | inside
  | escaped
  deriving DecidableEq

/-- The place behind a character. Only a quote that is not escaped opens or closes a string literal. -/
def Place.after : Place → Char → Place
  | outside, c => if c = '"' then inside else outside
  | inside, c => if c = '"' then outside else if c = '\\' then escaped else inside
  | escaped, _ => inside

/-- A text without the spaces and newlines that stand outside its string literals. -/
def condense (place : Place) : List Char → List Char
  | [] => []
  | c :: rest =>
    if place = .outside ∧ (c = ' ' ∨ c = '\n') then condense (place.after c) rest
    else c :: condense (place.after c) rest

/-- A text becomes a shorter one if spaces and newlines outside string literals are deleted, whatever text
stands behind it. It ends outside string literals. -/
def Condenses (text short : List Char) : Prop :=
  ∀ rest, condense .outside (text ++ rest) = short ++ condense .outside rest

variable {text short : List Char}

theorem condenses_nil : Condenses [] [] :=
  fun _ => rfl

theorem Condenses.append {behind shortBehind : List Char} (front : Condenses text short)
    (back : Condenses behind shortBehind) : Condenses (text ++ behind) (short ++ shortBehind) := by
  intro rest
  rw [List.append_assoc, front, back, List.append_assoc]

theorem Condenses.visible {c : Char} (other : c ≠ '"' ∧ c ≠ ' ' ∧ c ≠ '\n') (behind : Condenses text short) :
    Condenses (c :: text) (c :: short) := by
  intro rest
  simp only [List.cons_append, condense, Place.after, other, or_self, and_false, if_false, behind rest]

theorem Condenses.blanks {blanks : List Char} (blank : ∀ c ∈ blanks, c = ' ' ∨ c = '\n')
    (behind : Condenses text short) : Condenses (blanks ++ text) short := by
  induction blanks with
  | nil => exact behind
  | cons c blanks ih =>
    obtain ⟨first, later⟩ := List.forall_mem_cons.mp blank
    intro rest
    have stays : Place.after .outside c = .outside := by rcases first with rfl | rfl <;> rfl
    simp only [List.cons_append, condense, first, stays, true_and, if_true]
    exact ih later rest

theorem condenses_word (letters : ∀ c ∈ text, isWord c = true) : Condenses text text := by
  induction text with
  | nil => exact condenses_nil
  | cons c text ih =>
    obtain ⟨letter, later⟩ := List.forall_mem_cons.mp letters
    refine (ih later).visible ⟨?_, ?_, ?_⟩ <;>
    · rintro rfl
      exact absurd letter (by decide)

/-- Nothing that a character is escaped with closes the string literal. -/
theorem condense_escape (c : Char) (rest : List Char) :
    condense .inside (escape c ++ rest) = escape c ++ condense .inside rest := by
  unfold escape
  split_ifs with quote backslash _ _ _ _ _ control
  on_goal 9 => simp [condense, Place.after, quote, backslash]
  on_goal 8 =>
    have digit : ∀ n < 16, Nat.digitChar n ≠ '"' ∧ Nat.digitChar n ≠ '\\' := by decide
    have high := digit (c.toNat / 16) (by omega)
    have low := digit (c.toNat % 16) (by omega)
    simp [condense, Place.after, high, low]
  all_goals simp [condense, Place.after]

theorem condense_flatMap_escape (characters rest : List Char) :
    condense .inside (characters.flatMap escape ++ rest) =
      characters.flatMap escape ++ condense .inside rest := by
  induction characters with
  | nil => rfl
  | cons c characters ih => rw [List.flatMap_cons, List.append_assoc, condense_escape, ih, List.append_assoc]

theorem condenses_quote (s : String) : Condenses (quote s) (quote s) := by
  intro rest
  simp [quote, condense, Place.after, condense_flatMap_escape]

theorem mem_lineBreak {layout : Layout} {depth : Nat} {c : Char} (member : c ∈ layout.lineBreak depth) :
    c = ' ' ∨ c = '\n' := by
  cases layout with
  | compact => cases member
  | pretty =>
    rcases List.mem_cons.mp member with newline | blank
    · exact Or.inr newline
    · exact Or.inl (List.eq_of_mem_replicate blank)

/-- On one line the parts stand between brackets with commas only. -/
theorem enclose_compact (depth : Nat) (first last : Char) (parts : List (List Char)) :
    Layout.compact.enclose depth first last parts = first :: ([','].intercalate parts ++ [last]) := by
  cases parts <;> simp [Layout.enclose, Layout.lineBreak]

/-- The line breaks behind the commas go. -/
theorem condenses_intercalate (layout : Layout) (depth : Nat) {parts shorts : List (List Char)}
    (condenses : List.Forall₂ Condenses parts shorts) :
    Condenses ((',' :: layout.lineBreak depth).intercalate parts) ([','].intercalate shorts) := by
  induction condenses with
  | nil => exact condenses_nil
  | cons first later ih =>
    cases later with
    | nil =>
      rw [List.intercalate_singleton, List.intercalate_singleton]
      exact first
    | cons second rest =>
      rw [List.intercalate_cons_cons, List.intercalate_cons_cons, List.append_assoc, List.append_assoc]
      exact first.append ((ih.blanks fun _ => mem_lineBreak).visible (by decide))

theorem condenses_enclose (layout : Layout) (depth : Nat) {first last : Char}
    (opens : first ≠ '"' ∧ first ≠ ' ' ∧ first ≠ '\n') (closes : last ≠ '"' ∧ last ≠ ' ' ∧ last ≠ '\n')
    {parts shorts : List (List Char)} (condenses : List.Forall₂ Condenses parts shorts) :
    Condenses (layout.enclose depth first last parts) (Layout.compact.enclose depth first last shorts) := by
  have close : Condenses [last] [last] := condenses_nil.visible closes
  have items := condenses_intercalate layout (depth + 1) condenses
  rw [enclose_compact]
  cases condenses with
  | nil => exact close.visible opens
  | cons head later =>
    rw [Layout.enclose, List.append_assoc, List.append_assoc, List.cons_append]
    exact ((items.append (close.blanks fun _ => mem_lineBreak)).blanks fun _ => mem_lineBreak).visible opens

end Json

open Json (Condenses condenses_enclose enclose_compact)

namespace Value

mutual

/-- Without the blanks of its layout a value is rendered as on one line. -/
theorem condenses_render (layout : Layout) :
    (v : Value) → (depth : Nat) → Condenses (v.render layout depth) (v.render .compact depth)
  | string s, depth => by
    rw [render, render]
    exact Json.condenses_quote s
  | number n, depth => by
    rw [render, render]
    exact Json.condenses_word (Json.word_number n).1
  | array items, depth => by
    rw [render, render]
    exact condenses_enclose layout depth (by decide) (by decide)
      (condenses_renderItems layout items (depth + 1))

theorem condenses_renderItems (layout : Layout) :
    (items : List Value) → (depth : Nat) →
      List.Forall₂ Condenses (renderItems layout depth items) (renderItems .compact depth items)
  | [], depth => by
    rw [renderItems, renderItems]
    exact .nil
  | v :: rest, depth => by
    rw [renderItems, renderItems]
    exact .cons (condenses_render layout v depth) (condenses_renderItems layout rest depth)

end

mutual

/-- The JSON value of a value is printed as the value is rendered on one line. -/
theorem print_ofValue : (v : Value) → (depth : Nat) → (Json.ofValue v).print = v.render .compact depth
  | string s, depth => by
    rw [Json.ofValue, Json.print, render]
  | number n, depth => by
    rw [render]
    match n with
    | .int n => rw [Json.ofValue, Json.print, Json.number]
    | .float (.finite negative code) => rw [Json.ofValue, Json.print, Json.number]
    | .float (.infinite negative) => rfl
    | .float .nan => rfl
  | array items, depth => by
    rw [Json.ofValue, Json.print, render, enclose_compact, printItems_ofItems items (depth + 1)]
    rfl

theorem printItems_ofItems :
    (items : List Value) → (depth : Nat) →
      Json.printItems (Json.ofItems items) = [','].intercalate (renderItems .compact depth items)
  | [], depth => by
    rw [Json.ofItems, Json.printItems, renderItems, List.intercalate_nil]
  | [v], depth => by
    rw [Json.ofItems, Json.ofItems, Json.printItems, renderItems, renderItems, List.intercalate_singleton,
      print_ofValue v depth]
  | v :: w :: rest, depth => by
    have later := printItems_ofItems (w :: rest) depth
    simp only [Json.ofItems, renderItems] at later ⊢
    rw [Json.printItems, later, List.intercalate_cons_cons, print_ofValue v depth, List.append_assoc]
    · rfl
    · exact nofun

end

end Value

namespace Document

theorem condenses_renderField (layout : Layout) (entry : String × Value) :
    Condenses (renderField layout entry) (renderField .compact entry) := by
  have value := entry.2.condenses_render layout 1
  have key := Json.condenses_quote entry.1
  rw [renderField, renderField, List.append_assoc, List.append_assoc]
  refine key.append ?_
  cases layout with
  | compact => exact value.visible (by decide)
  | pretty =>
    have space : ∀ c ∈ [' '], c = ' ' ∨ c = '\n' := by simp
    exact (value.blanks space).visible (by decide)

theorem printFields_ofDocument (entries : List (String × Value)) :
    Json.printFields (entries.map fun (key, v) => (key, Json.ofValue v)) =
      [','].intercalate (entries.map (renderField .compact)) := by
  have field (key : String) (v : Value) :
      Json.quote key ++ ':' :: (Json.ofValue v).print = renderField .compact (key, v) := by
    rw [v.print_ofValue 1, renderField, List.append_assoc]
    rfl
  induction entries with
  | nil => rfl
  | cons entry rest ih =>
    cases rest with
    | nil => simp [Json.printFields, field]
    | cons second rest =>
      simp only [List.map_cons] at ih ⊢
      rw [Json.printFields, field, ih, List.intercalate_cons_cons, List.append_assoc]
      · rfl
      · exact nofun

/-- The JSON texts of a document agree: whatever floats it holds, either layout without the spaces and
newlines outside string literals is the text on one line, and so is the JSON value when it is printed. -/
theorem render_agrees (document : Document) :
    (∀ layout, String.ofList (Json.condense .outside (document.render layout).toList) = document.render .compact) ∧
      String.ofList (Json.ofDocument document).print = document.render .compact := by
  constructor
  · intro layout
    have fields : List.Forall₂ Condenses (document.entries.map (renderField layout))
        (document.entries.map (renderField .compact)) := by
      rw [List.forall₂_map_left_iff, List.forall₂_map_right_iff]
      exact List.forall₂_same.mpr fun entry _ => condenses_renderField layout entry
    have whole : Condenses (layout.enclose 0 '{' '}' (document.entries.map (renderField layout)))
        (Layout.compact.enclose 0 '{' '}' (document.entries.map (renderField .compact))) :=
      condenses_enclose layout 0 (by decide) (by decide) fields
    have alone := whole []
    rw [List.append_nil, Json.condense, List.append_nil] at alone
    rw [render, render, String.toList_ofList, alone]
  · rw [Json.ofDocument, Json.print, printFields_ofDocument, render, enclose_compact]
    rfl

end Document

end Settings
