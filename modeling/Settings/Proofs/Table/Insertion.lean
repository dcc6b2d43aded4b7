import Settings.Table

namespace Settings.Table

variable {κ α : Type} [DecidableEq κ]

theorem keys_insertAll (table : Table κ α) (bindings : List (κ × α)) :
    (table.insertAll bindings).keys =
      table.keys ++ ((bindings.map Prod.fst).filter (· ∉ table.keys)).eraseDups := by
  induction bindings generalizing table with
  | nil => rw [List.map_nil, List.filter_nil, List.eraseDups_nil, List.append_nil, insertAll, List.foldl_nil]
  | cons binding rest ih =>
    obtain ⟨key, a⟩ := binding
    rw [insertAll, List.foldl_cons, ← insertAll, ih, keys_insert, List.map_cons]
    by_cases bound : key ∈ table.keys
    · rw [if_pos bound, List.filter_cons, if_neg (by simpa using bound)]
    · rw [if_neg bound, List.filter_cons, if_pos (by simpa using bound), List.eraseDups_cons,
        List.filter_filter, List.append_assoc, List.singleton_append]
      congr 3
      refine List.filter_congr ?_
      intro other _
      simp only [List.mem_append, List.mem_singleton, not_or, Bool.decide_and, decide_not,
        Bool.beq_eq_decide_eq, Bool.and_comm]

theorem get?_insertAll (table : Table κ α) (bindings : List (κ × α)) (key : κ) :
    (table.insertAll bindings).get? key =
      (bindings.reverse.lookup key).or (table.get? key) := by
  induction bindings generalizing table with
  | nil => rfl
  | cons binding rest ih =>
    obtain ⟨other, a⟩ := binding
    rw [insertAll, List.foldl_cons, ← insertAll, ih, get?_insert, List.reverse_cons,
      List.lookup_append, Option.or_assoc]
    congr 1
    by_cases same : other = key
    · rw [if_pos same, same, List.lookup_cons_self, Option.some_or]
    · have apart : (key == other) = false := beq_eq_false_iff_ne.mpr (Ne.symm same)
      rw [if_neg same, List.lookup_cons, apart, List.lookup_nil, Option.none_or]

theorem get?_of_mem {table : Table κ α} {key : κ} {a : α} (member : (key, a) ∈ table.entries) :
    table.get? key = some a := by
  obtain ⟨entries, nodup⟩ := table
  simp only at member
  rw [get?]
  simp only
  induction entries with
  | nil => cases member
  | cons entry rest ih =>
    obtain ⟨fresh, later⟩ := List.nodup_cons.mp nodup
    rcases List.mem_cons.mp member with rfl | behind
    · rw [List.find?_cons_of_pos (by simp), Option.map_some]
    · have other : entry.1 ≠ key := by
        rintro rfl
        exact fresh (List.mem_map.mpr ⟨_, behind, rfl⟩)
      rw [List.find?_cons_of_neg (by simpa using other)]
      exact ih later behind

theorem mem_of_get? {table : Table κ α} {key : κ} {a : α} (bound : table.get? key = some a) :
    (key, a) ∈ table.entries := by
  obtain ⟨entry, found, rfl⟩ := Option.map_eq_some_iff.mp bound
  have same : entry.1 = key := by simpa using List.find?_some found
  rw [← same]
  exact List.mem_of_find?_eq_some found

theorem get?_eq_none_iff {table : Table κ α} {key : κ} : table.get? key = none ↔ key ∉ table.keys := by
  rw [get?, Option.map_eq_none_iff, List.find?_eq_none, keys, List.mem_map]
  simp only [decide_eq_true_eq, not_exists, not_and]

theorem mem_of_lookup_reverse {bindings : List (κ × α)} {key : κ} {a : α}
    (last : bindings.reverse.lookup key = some a) : (key, a) ∈ bindings := by
  obtain ⟨before, after, shape, _⟩ := List.lookup_eq_some_iff.mp last
  rw [← List.mem_reverse, shape]
  exact List.mem_append_right before List.mem_cons_self

/-- A table is known from its keys in their order and from what each key is bound to. -/
theorem ext_of_keys {left right : Table κ α} (keys : left.keys = right.keys)
    (values : ∀ key, left.get? key = right.get? key) : left = right := by
  have pairs (table : Table κ α) :
      table.entries.map (fun entry => (entry.1, some entry.2)) =
        table.keys.map fun key => (key, table.get? key) := by
    rw [Table.keys, List.map_map]
    refine List.map_congr_left ?_
    intro entry member
    rw [Function.comp_apply, get?_of_mem member]
  have same : left.entries.map (fun entry => (entry.1, some entry.2)) =
      right.entries.map (fun entry => (entry.1, some entry.2)) := by
    rw [pairs left, pairs right, keys]
    refine List.map_congr_left ?_
    intro key _
    rw [values key]
  refine Table.ext ((List.map_inj_right ?_).mp same)
  intro first second equal
  obtain ⟨key, value⟩ := Prod.mk.inj equal
  exact Prod.ext key (Option.some.inj value)

theorem keys_merge (table upper : Table κ α) :
    (table.merge upper).keys =
      table.keys ++ (upper.keys.filter (· ∉ table.keys)).eraseDups :=
  keys_insertAll table upper.entries

theorem get?_merge (table upper : Table κ α) (key : κ) :
    (table.merge upper).get? key = (upper.get? key).or (table.get? key) := by
  rw [merge, get?_insertAll]
  have own : upper.entries.reverse.lookup key = upper.get? key := by
    cases last : upper.entries.reverse.lookup key with
    | none =>
      refine (Option.eq_none_iff_forall_ne_some.mpr ?_).symm
      intro a bound
      have absent := List.lookup_eq_none_iff.mp last _ (List.mem_reverse.mpr (mem_of_get? bound))
      exact bne_iff_ne.mp absent rfl
    | some a => exact (get?_of_mem (mem_of_lookup_reverse last)).symm
  rw [own]

/-- Inserting into the upper table of a merge is inserting into the merged table. -/
theorem merge_insert (table upper : Table κ α) (key : κ) (a : α) :
    table.merge (upper.insert key a) = (table.merge upper).insert key a := by
  refine ext_of_keys ?_ ?_
  · rw [keys_insert, keys_merge, keys_merge, keys_insert]
    by_cases inUpper : key ∈ upper.keys
    · have merged : key ∈ table.keys ++ (upper.keys.filter (· ∉ table.keys)).eraseDups := by
        by_cases below : key ∈ table.keys <;> simp [below, inUpper]
      rw [if_pos inUpper, if_pos merged]
    · rw [if_neg inUpper, List.filter_append]
      by_cases below : key ∈ table.keys
      · simp [below]
      · have fresh : ¬ key ∈ table.keys ++ (upper.keys.filter (· ∉ table.keys)).eraseDups := by
          simp [below, inUpper]
        rw [if_neg fresh, List.eraseDups_append, List.append_assoc]
        simp [below, List.removeAll, inUpper, List.eraseDups_cons]
  · intro other
    rw [get?_merge, get?_insert, get?_insert, get?_merge]
    by_cases same : key = other
    · rw [if_pos same, if_pos same, Option.some_or]
    · rw [if_neg same, if_neg same]

theorem mem_rebind {key : κ} {a : α} {entry : κ × α} {entries : List (κ × α)}
    (member : entry ∈ rebind key a entries) : entry = (key, a) ∨ entry ∈ entries := by
  induction entries with
  | nil => exact Or.inl (List.mem_singleton.mp member)
  | cons first rest ih =>
    rw [rebind] at member
    split at member
    · rcases List.mem_cons.mp member with here | behind
      · exact Or.inl here
      · exact Or.inr (List.mem_cons_of_mem first behind)
    · rcases List.mem_cons.mp member with rfl | behind
      · exact Or.inr List.mem_cons_self
      · exact (ih behind).imp_right (List.mem_cons_of_mem first)

/-- Every key of a table is related to what it is bound to. -/
def Each (R : κ → α → Prop) (table : Table κ α) : Prop :=
  ∀ entry ∈ table.entries, R entry.1 entry.2

variable {R : κ → α → Prop} {table upper : Table κ α}

omit [DecidableEq κ] in
theorem each_empty : Each R empty :=
  fun _ member => absurd member List.not_mem_nil

theorem Each.insert (each : table.Each R) {key : κ} {a : α} (here : R key a) :
    (table.insert key a).Each R := by
  intro entry member
  rcases mem_rebind member with rfl | earlier
  · exact here
  · exact each entry earlier

theorem Each.insertAll (each : table.Each R) {bindings : List (κ × α)}
    (more : ∀ binding ∈ bindings, R binding.1 binding.2) : (table.insertAll bindings).Each R := by
  induction bindings generalizing table with
  | nil => exact each
  | cons binding rest ih =>
    exact ih (each.insert (more binding List.mem_cons_self))
      fun other member => more other (List.mem_cons_of_mem binding member)

theorem Each.merge (each : table.Each R) (above : upper.Each R) : (table.merge upper).Each R :=
  each.insertAll above

end Settings.Table
