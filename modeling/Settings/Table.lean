namespace Settings

/-- Keys with what they are bound to, in the order in which they were first bound. -/
@[ext]
structure Table (κ α : Type) where
  entries : List (κ × α)
  /-- Every key is bound once. -/
  nodup : (entries.map Prod.fst).Nodup

namespace Table

variable {κ α : Type} [DecidableEq κ]

/-- Binds a key. A key that is bound already keeps its place, a new one goes last. -/
def rebind (key : κ) (a : α) : List (κ × α) → List (κ × α)
  | [] => [(key, a)]
  | entry :: rest => if entry.1 = key then (key, a) :: rest else entry :: rebind key a rest

theorem keys_rebind (key : κ) (a : α) (entries : List (κ × α)) :
    (rebind key a entries).map Prod.fst =
      if key ∈ entries.map Prod.fst then entries.map Prod.fst
      else entries.map Prod.fst ++ [key] := by
  induction entries with
  | nil => rfl
  | cons entry rest ih =>
    by_cases same : entry.1 = key
    · simp [rebind, same]
    · by_cases later : key ∈ rest.map Prod.fst
      · simp only [rebind, if_neg same, List.map_cons, ih, List.mem_cons, later,
          or_true, if_true]
      · have other : ¬ key = entry.1 := fun h => same h.symm
        simp only [rebind, if_neg same, List.map_cons, ih, List.mem_cons, later,
          other, or_self, if_false, List.cons_append]

theorem nodup_rebind {key : κ} {a : α} {entries : List (κ × α)}
    (nodup : (entries.map Prod.fst).Nodup) : ((rebind key a entries).map Prod.fst).Nodup := by
  rw [keys_rebind]
  split
  · exact nodup
  · rename_i fresh
    rw [List.nodup_append]
    refine ⟨nodup, by simp, fun old member new single => ?_⟩
    rw [List.mem_singleton.mp single]
    exact fun same => fresh (same ▸ member)

theorem find?_rebind (key other : κ) (a : α) (entries : List (κ × α)) :
    (rebind key a entries).find? (fun entry => entry.1 = other) =
      if key = other then some (key, a) else entries.find? fun entry => entry.1 = other := by
  induction entries with
  | nil => by_cases same : key = other <;> simp [rebind, same]
  | cons entry rest ih =>
    by_cases first : entry.1 = key
    · by_cases same : key = other <;> simp [rebind, first, same]
    · rw [rebind, if_neg first, List.find?_cons, List.find?_cons, ih]
      by_cases found : entry.1 = other
      · have apart : ¬ key = other := fun same => first (found.trans same.symm)
        simp [found, apart]
      · simp [found]

/-- The table without entries. -/
def empty : Table κ α :=
  ⟨[], List.nodup_nil⟩

instance : Inhabited (Table κ α) := ⟨empty⟩

/-- The table with `key` bound to `a`. An earlier binding of the key is replaced in its
place, and a new key goes last. -/
def insert (table : Table κ α) (key : κ) (a : α) : Table κ α :=
  ⟨rebind key a table.entries, nodup_rebind table.nodup⟩

/-- What `key` is bound to. -/
def get? (table : Table κ α) (key : κ) : Option α :=
  (table.entries.find? fun entry => entry.1 = key).map Prod.snd

theorem get?_insert (table : Table κ α) (key other : κ) (a : α) :
    (table.insert key a).get? other = if key = other then some a else table.get? other := by
  simp only [get?, insert, find?_rebind]
  split <;> rfl

/-- What `key` was bound to, and the table in which it is bound to `a`. -/
def getThenInsert (table : Table κ α) (key : κ) (a : α) : Option α × Table κ α :=
  (table.get? key, table.insert key a)

/-- Whether `key` is bound. -/
def contains (table : Table κ α) (key : κ) : Bool :=
  (table.get? key).isSome

/-- The keys in the order of their first binding. -/
def keys (table : Table κ α) : List κ :=
  table.entries.map Prod.fst

theorem keys_insert (table : Table κ α) (key : κ) (a : α) :
    (table.insert key a).keys =
      if key ∈ table.keys then table.keys else table.keys ++ [key] :=
  keys_rebind key a table.entries

/-- The number of keys. -/
def size (table : Table κ α) : Nat :=
  table.entries.length

/-- Whether no key is bound. -/
def isEmpty (table : Table κ α) : Bool :=
  table.entries.isEmpty

/-- The table after a list of bindings, one after the other. -/
def insertAll (table : Table κ α) (bindings : List (κ × α)) : Table κ α :=
  bindings.foldl (fun table (key, a) => table.insert key a) table

/-- The table that a list of bindings makes. -/
def ofList (bindings : List (κ × α)) : Table κ α :=
  empty.insertAll bindings

/-- The table with another laid over it: keys in both take the value of `upper`, and keys
only in `upper` follow in their order there. -/
def merge (table upper : Table κ α) : Table κ α :=
  table.insertAll upper.entries

/-- Equality as maps: the same keys with equal values, in any order. -/
def equal [BEq α] (left right : Table κ α) : Bool :=
  left.size = right.size &&
    left.entries.all fun (key, a) => match right.get? key with
      | some b => a == b
      | none => false

instance [BEq α] : BEq (Table κ α) := ⟨equal⟩

end Table

end Settings
