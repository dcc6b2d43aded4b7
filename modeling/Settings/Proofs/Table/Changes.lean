import Mathlib.Data.Finset.Card
import Mathlib.Data.Finset.Dedup
import Settings.Proofs.Table.Insertion

namespace Settings.Table

variable {κ α : Type} [DecidableEq κ]

/-- A change of a table: a key is bound, or another table is laid over it. -/
inductive Change (κ α : Type)
  | insert (key : κ) (a : α)
  | merge (upper : Table κ α)

namespace Change

/-- The bindings of a change in their order. -/
def bindings : Change κ α → List (κ × α)
  | insert key a => [(key, a)]
  | merge upper => upper.entries

/-- The table behind a change. -/
def apply (table : Table κ α) : Change κ α → Table κ α
  | insert key a => (table.getThenInsert key a).2
  | merge upper => table.merge upper

theorem apply_eq_insertAll (table : Table κ α) (change : Change κ α) :
    apply table change = table.insertAll change.bindings := by
  cases change <;> rfl

end Change

/-- The table that changes make, one after the other, of a table without entries. -/
def ofChanges (changes : List (Change κ α)) : Table κ α :=
  changes.foldl Change.apply empty

/-- All bindings of changes, the earliest first. -/
def bound (changes : List (Change κ α)) : List (κ × α) :=
  changes.flatMap Change.bindings

theorem insertAll_append (table : Table κ α) (first second : List (κ × α)) :
    table.insertAll (first ++ second) = (table.insertAll first).insertAll second := by
  simp only [insertAll, List.foldl_append]

theorem foldl_apply (table : Table κ α) (changes : List (Change κ α)) :
    changes.foldl Change.apply table = table.insertAll (bound changes) := by
  induction changes generalizing table with
  | nil => rfl
  | cons change rest ih =>
    have division : bound (change :: rest) = change.bindings ++ bound rest := List.flatMap_cons
    rw [List.foldl_cons, ih, Change.apply_eq_insertAll, division, insertAll_append]

theorem ofChanges_eq_ofList (changes : List (Change κ α)) : ofChanges changes = ofList (bound changes) :=
  foldl_apply empty changes

omit [DecidableEq κ] in
theorem keys_empty : (empty : Table κ α).keys = [] :=
  rfl

theorem get?_empty (key : κ) : (empty : Table κ α).get? key = none :=
  rfl

theorem keys_ofList (bindings : List (κ × α)) : (ofList bindings).keys = (bindings.map Prod.fst).eraseDups := by
  rw [ofList, keys_insertAll, keys_empty, List.nil_append]
  simp

theorem get?_ofList (bindings : List (κ × α)) (key : κ) :
    (ofList bindings).get? key = bindings.reverse.lookup key := by
  rw [ofList, get?_insertAll, get?_empty, Option.or_none]

omit [DecidableEq κ] in
theorem nodup_keys (table : Table κ α) : table.keys.Nodup :=
  table.nodup

theorem contains_iff {table : Table κ α} {key : κ} : table.contains key = true ↔ key ∈ table.keys := by
  rw [contains, Option.isSome_iff_ne_none, ne_eq, get?_eq_none_iff, not_not]

/-- There are as many entries as there are different keys. -/
theorem size_eq_card (table : Table κ α) : table.size = table.keys.toFinset.card := by
  rw [List.toFinset_card_of_nodup table.nodup_keys, keys, List.length_map, size]

theorem eraseDups_of_nodup {keys : List κ} (nodup : keys.Nodup) : keys.eraseDups = keys := by
  induction keys with
  | nil => rfl
  | cons key rest ih =>
    obtain ⟨fresh, later⟩ := List.nodup_cons.mp nodup
    have others : rest.filter (fun other => !other == key) = rest := by
      refine List.filter_eq_self.mpr ?_
      intro other member
      simpa using ne_of_mem_of_not_mem member fresh
    rw [List.eraseDups_cons, others, ih later]

/-- Behind the keys of the lower table stand the other keys of the upper one in their order there. -/
theorem keys_merge_eq (table upper : Table κ α) :
    (table.merge upper).keys = table.keys ++ upper.keys.filter (· ∉ table.keys) := by
  rw [keys_merge, eraseDups_of_nodup (upper.nodup_keys.filter _)]

/-- Bindings that are made above a merge are made in its upper table. -/
theorem merge_insertAll (table upper : Table κ α) (bindings : List (κ × α)) :
    table.merge (upper.insertAll bindings) = (table.merge upper).insertAll bindings := by
  induction bindings generalizing upper with
  | nil => rfl
  | cons binding rest ih =>
    simp only [insertAll, List.foldl_cons] at ih ⊢
    rw [ih, merge_insert]

theorem merge_assoc (table middle upper : Table κ α) :
    (table.merge middle).merge upper = table.merge (middle.merge upper) :=
  (merge_insertAll table middle upper.entries).symm

theorem merge_self (table : Table κ α) : table.merge table = table := by
  refine ext_of_keys ?_ ?_
  · have none : table.keys.filter (· ∉ table.keys) = [] := by simp
    rw [keys_merge_eq, none, List.append_nil]
  · intro key
    rw [get?_merge, Option.or_self]

/-- What a table holds behind any changes can be read off the bindings that they made: the keys stand in the
order of their first bindings and have the values of their last ones, and an insertion answers with the value
that the key had. A merge puts new keys last, changes nothing when it is repeated, and two of them are one
merge with the merged upper tables. -/
theorem ofChanges_ordered :
    (∀ changes : List (Change κ α),
      (ofChanges changes).keys.Nodup ∧
      (ofChanges changes).keys = ((bound changes).map Prod.fst).eraseDups ∧
      (∀ key, (ofChanges changes).get? key = (bound changes).reverse.lookup key) ∧
      (∀ key, (ofChanges changes).contains key = true ↔ key ∈ (ofChanges changes).keys) ∧
      (ofChanges changes).size = ((bound changes).map Prod.fst).toFinset.card ∧
      ∀ key a, (ofChanges changes).getThenInsert key a =
        ((bound changes).reverse.lookup key, ofChanges (changes ++ [.insert key a]))) ∧
    ∀ table middle upper : Table κ α,
      (table.merge upper).keys = table.keys ++ upper.keys.filter (· ∉ table.keys) ∧
      (∀ key, (table.merge upper).get? key = (upper.get? key).or (table.get? key)) ∧
      (table.merge upper).merge upper = table.merge upper ∧
      (table.merge middle).merge upper = table.merge (middle.merge upper) := by
  constructor
  · intro changes
    have order := keys_ofList (bound changes)
    have values := get?_ofList (bound changes)
    rw [← ofChanges_eq_ofList] at order values
    refine ⟨nodup_keys _, order, values, fun _ => contains_iff, ?_, ?_⟩
    · rw [size_eq_card, order]
      congr 1
      ext key
      simp
    · intro key a
      have next : ofChanges (changes ++ [.insert key a]) = (ofChanges changes).insert key a := by
        simp only [ofChanges, List.foldl_append, List.foldl_cons, List.foldl_nil]
        rfl
      rw [getThenInsert, values, next]
  · intro table middle upper
    refine ⟨keys_merge_eq table upper, get?_merge table upper, ?_, merge_assoc table middle upper⟩
    rw [merge_assoc, merge_self]

end Settings.Table
