import Mathlib.Data.List.Perm.Subperm
import Settings.Proofs.Table.Insertion

namespace Settings

theorem beq_option_iff {α : Type} [BEq α] {x y : Option α} : (x == y) = true ↔
    (x = none ∧ y = none) ∨ ∃ a b, x = some a ∧ y = some b ∧ (a == b) = true := by
  cases x <;> cases y <;> simp

instance partialEquivBEqOption {α : Type} [BEq α] [PartialEquivBEq α] : PartialEquivBEq (Option α) where
  symm {x y} same := by
    rcases beq_option_iff.mp same with ⟨rfl, rfl⟩ | ⟨a, b, rfl, rfl, equal⟩
    · exact same
    · exact beq_option_iff.mpr (Or.inr ⟨b, a, rfl, rfl, BEq.symm equal⟩)
  trans {x y z} same also := by
    rcases beq_option_iff.mp same with ⟨rfl, rfl⟩ | ⟨a, b, rfl, rfl, equal⟩
    · exact also
    · obtain ⟨b, c, ⟨⟩, rfl, next⟩ := (beq_option_iff.mp also).resolve_left nofun
      exact beq_option_iff.mpr (Or.inr ⟨a, c, rfl, rfl, PartialEquivBEq.trans equal next⟩)

namespace Table

variable {κ α : Type} [DecidableEq κ] {left right : Table κ α}

theorem get?_insert_congr (same : left.get? = right.get?) (key : κ) (a : α) :
    (left.insert key a).get? = (right.insert key a).get? := by
  funext other
  rw [get?_insert, get?_insert, same]

/-- The order of two bindings matters only if they are of one key. -/
theorem get?_insert_comm (table : Table κ α) {first second : κ} (apart : first ≠ second) (a b : α) :
    ((table.insert first a).insert second b).get? = ((table.insert second b).insert first a).get? := by
  funext key
  rw [get?_insert, get?_insert, get?_insert, get?_insert]
  by_cases isFirst : first = key
  · have other : second ≠ key := fun isSecond => apart (isFirst.trans isSecond.symm)
    rw [if_pos isFirst, if_pos isFirst, if_neg other]
  · rw [if_neg isFirst, if_neg isFirst]

omit [DecidableEq κ] in
theorem length_keys (table : Table κ α) : table.keys.length = table.size := by
  simp only [keys, size, List.length_map]

omit [DecidableEq κ] in
theorem keys_perm_of_mem_iff (same : ∀ key, key ∈ left.keys ↔ key ∈ right.keys) :
    left.keys.Perm right.keys :=
  (List.perm_ext_iff_of_nodup left.nodup right.nodup).mpr same

omit [DecidableEq κ] in
/-- No key is repeated, so of two tables of one size neither has a key more than the other. -/
theorem keys_perm_of_subset (part : left.keys ⊆ right.keys) (sizes : left.size = right.size) :
    left.keys.Perm right.keys := by
  have lengths : right.keys.length ≤ left.keys.length := by
    simp only [length_keys, sizes, Nat.le_refl]
  exact (List.Nodup.subperm left.nodup part).perm_of_length_le lengths

/-- Tables that bind alike have the same keys, if perhaps in another order. -/
theorem keys_perm_of_get?_eq (same : left.get? = right.get?) : left.keys.Perm right.keys := by
  refine keys_perm_of_mem_iff fun key => ?_
  rw [← not_iff_not, ← get?_eq_none_iff, ← get?_eq_none_iff, same]

variable [BEq α]

theorem mem_keys_iff_of_beq {key : κ} (same : (left.get? key == right.get? key) = true) :
    key ∈ left.keys ↔ key ∈ right.keys := by
  rw [← not_iff_not, ← get?_eq_none_iff, ← get?_eq_none_iff]
  rcases beq_option_iff.mp same with ⟨atLeft, atRight⟩ | ⟨a, b, atLeft, atRight, -⟩ <;>
    simp only [atLeft, atRight, reduceCtorEq]

/-- Equality of tables compares sizes, and then what the keys of the left table are bound to. -/
theorem beq_iff_forall_mem : (left == right) = true ↔
    left.size = right.size ∧ ∀ key ∈ left.keys, (left.get? key == right.get? key) = true := by
  show equal left right = true ↔ _
  simp only [equal, Bool.and_eq_true, decide_eq_true_eq, List.all_eq_true, keys, List.forall_mem_map]
  refine and_congr_right fun _ => forall₂_congr fun entry member => ?_
  simp only [get?_of_mem member]
  cases right.get? entry.1 <;> simp

/-- Tables are equal if they bind every key to equal values, or both do not bind it. -/
theorem beq_iff : (left == right) = true ↔ ∀ key, (left.get? key == right.get? key) = true := by
  rw [beq_iff_forall_mem]
  constructor
  · rintro ⟨sizes, each⟩ key
    by_cases member : key ∈ left.keys
    · exact each key member
    · have part : left.keys ⊆ right.keys :=
        fun other inside => (mem_keys_iff_of_beq (each other inside)).mp inside
      have absent : key ∉ right.keys :=
        fun inside => member ((keys_perm_of_subset part sizes).mem_iff.mpr inside)
      simp only [get?_eq_none_iff.mpr member, get?_eq_none_iff.mpr absent, Option.beq_none, Option.isNone_none]
  · intro each
    have perm := keys_perm_of_mem_iff fun key => mem_keys_iff_of_beq (each key)
    exact ⟨by simpa only [length_keys] using perm.length_eq, fun key _ => each key⟩

/-- A table equals itself if all that it binds does. -/
theorem beq_self_iff {table : Table κ α} :
    (table == table) = true ↔ ∀ entry ∈ table.entries, (entry.2 == entry.2) = true := by
  rw [beq_iff]
  constructor
  · intro each entry member
    have here := each entry.1
    simpa only [get?_of_mem member, Option.some_beq_some] using here
  · intro each key
    cases bound : table.get? key with
    | none => rfl
    | some a => exact each _ (mem_of_get? bound)

/-- Tables that bind alike are equal as maps, if what they bind equals itself. -/
theorem beq_of_get?_eq (same : left.get? = right.get?)
    (reflexive : ∀ entry ∈ left.entries, (entry.2 == entry.2) = true) : (left == right) = true := by
  have own := beq_iff.mp (beq_self_iff.mpr reflexive)
  exact beq_iff.mpr fun key => same ▸ own key

instance [PartialEquivBEq α] : PartialEquivBEq (Table κ α) where
  symm same := beq_iff.mpr fun key => BEq.symm (beq_iff.mp same key)
  trans same also := beq_iff.mpr fun key => PartialEquivBEq.trans (beq_iff.mp same key) (beq_iff.mp also key)

/-- Equal tables give equal tables when equal tables are laid over them. -/
theorem merge_congr {lower upper : Table κ α} (below : (left == right) = true)
    (above : (lower == upper) = true) : (left.merge lower == right.merge upper) = true := by
  refine beq_iff.mpr fun key => ?_
  rw [get?_merge, get?_merge]
  rcases beq_option_iff.mp (beq_iff.mp above key) with ⟨atLower, atUpper⟩ | ⟨a, b, atLower, atUpper, equal⟩
  · simpa only [atLower, atUpper, Option.none_or] using beq_iff.mp below key
  · simpa only [atLower, atUpper, Option.some_or, Option.some_beq_some] using equal

end Table

end Settings
