import Settings.Config

namespace Settings.Value

/-- A value occurs in another one, at any depth of its arrays. -/
inductive Part (part : Value) : Value → Prop
  | self : Part part part
  | item {item : Value} {items : List Value} : item ∈ items → Part part item → Part part (.array items)

/-- What is no array has no parts but itself. -/
theorem Part.eq_of_not_array {part v : Value} (inside : Part part v) (single : ∀ items, v ≠ .array items) :
    part = v := by
  cases inside with
  | self => rfl
  | item => exact absurd rfl (single _)

theorem Part.trans {part middle v : Value} (inner : Part part middle) (outer : Part middle v) : Part part v := by
  induction outer with
  | self => exact inner
  | item member _ ih => exact .item member ih

/-- A value as a settings text can hold it: on one line, without a float in an array, for the point of
a float would divide the array there, and with floats that are numbers or infinite. -/
structure Sound (v : Value) : Prop where
  line {s : String} : Part (.string s) v → '\n' ∉ s.toList
  array {items : List Value} {x : Double} : Part (.array items) v → ¬ Part (.float x) (.array items)
  number : ¬ Part (.float .nan) v

/-- Indices lead from a value to a node of it, with each index into an array. -/
inductive Leads : Value → List Nat → Value → Prop
  | here (v : Value) : Leads v [] v
  | item {items : List Value} {index : Nat} {rest : List Nat} {v node : Value} :
      items[index]? = some v → Leads v rest node → Leads (.array items) (index :: rest) node

theorem at?_eq_some_iff {v node : Value} {indices : List Nat} :
    v.at? indices = some node ↔ Leads v indices node := by
  induction indices generalizing v with
  | nil =>
    rw [at?, Option.some.injEq]
    constructor
    · rintro rfl
      exact .here v
    · rintro ⟨⟩
      rfl
  | cons index rest ih =>
    cases v with
    | array items =>
      rw [at?, Option.bind_eq_some_iff]
      constructor
      · rintro ⟨item, found, onward⟩
        exact .item found (ih.mp onward)
      · rintro (_ | ⟨found, onward⟩)
        exact ⟨_, found, ih.mpr onward⟩
    | string s => exact iff_of_false nofun nofun
    | number n => exact iff_of_false nofun nofun

/-- All indices of a value, at any depth of it, are below a bound. -/
def Within (bound : Nat) (v : Value) : Prop :=
  ∀ {indices : List Nat} {node : Value}, v.Leads indices node → ∀ index ∈ indices, index < bound

end Settings.Value
