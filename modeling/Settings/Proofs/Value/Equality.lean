import Mathlib.Logic.Basic
import Settings.Proofs.Value.Parts

namespace Settings

namespace Binary

variable {f : Format} {x y z : Binary f}

/-- Only what is not a number differs from itself. -/
theorem equal_self_iff : x.equal x = true ↔ x ≠ nan := by
  cases x with
  | nan => exact iff_of_false nofun fun other => other rfl
  | infinite negative => exact iff_of_true (decide_eq_true rfl) nofun
  | finite negative code =>
    refine iff_of_true ?_ nofun
    rw [equal, decide_eq_true rfl, decide_eq_true rfl, Bool.true_or, Bool.and_true]

theorem equal_symm (same : x.equal y = true) : y.equal x = true := by
  cases x <;> cases y <;> grind [equal]

theorem equal_trans (same : x.equal y = true) (also : y.equal z = true) : x.equal z = true := by
  cases x <;> cases y <;> cases z <;> grind [equal]

end Binary

namespace Number

variable {l m n : Number}

theorem equal_symm (same : m.equal n = true) : n.equal m = true := by
  cases m <;> cases n <;> grind [equal, Binary.equal_symm]

theorem equal_trans (same : l.equal m = true) (also : m.equal n = true) : l.equal n = true := by
  cases l <;> cases m <;> cases n <;> grind [equal, Binary.equal_trans]

end Number

namespace Value

/-- Induction over the items of arrays. -/
@[elab_as_elim]
theorem itemwise {motive : Value → Prop} (string : ∀ s, motive (.string s)) (number : ∀ n, motive (.number n))
    (array : ∀ items, (∀ item ∈ items, motive item) → motive (.array items)) (v : Value) : motive v :=
  @Value.rec motive (fun items => ∀ item ∈ items, motive item) string number array nofun
    (fun _ _ first later => List.forall_mem_cons.mpr ⟨first, later⟩) v

theorem equalItems_self_iff {items : List Value} :
    equalItems items items = true ↔ ∀ item ∈ items, item.equal item = true := by
  induction items with
  | nil => exact iff_of_true (by rw [equalItems]) nofun
  | cons first rest ih => rw [equalItems, Bool.and_eq_true, ih, List.forall_mem_cons]

/-- A value equals itself just if every number in it is one. -/
theorem equal_self_iff {v : Value} : v.equal v = true ↔ ¬ Part (.float .nan) v := by
  induction v using itemwise with
  | string s =>
    refine iff_of_true (by rw [equal, decide_eq_true rfl]) ?_
    intro part
    cases part.eq_of_not_array nofun
  | number n =>
    cases n with
    | int n =>
      refine iff_of_true (by rw [equal, Number.equal, decide_eq_true rfl]) ?_
      intro part
      cases part.eq_of_not_array nofun
    | float x =>
      rw [equal, Number.equal, Binary.equal_self_iff, not_iff_not]
      constructor
      · rintro rfl
        exact .self
      · intro part
        cases part.eq_of_not_array nofun
        rfl
  | array items ih =>
    rw [equal, equalItems_self_iff]
    constructor
    · intro all part
      cases part with
      | item inside part => exact (ih _ inside).mp (all _ inside) part
    · intro absent item inside
      exact (ih item inside).mpr fun part => absent (.item inside part)

/-- Arrays are compared item by item, so what holds of the comparison of their items holds of theirs. -/
theorem equalItems_symm {vs ws : List Value} (each : ∀ v ∈ vs, ∀ w, v.equal w = true → w.equal v = true)
    (same : equalItems vs ws = true) : equalItems ws vs = true := by
  induction vs generalizing ws with
  | nil => cases ws <;> grind [equalItems]
  | cons v vs ih => cases ws <;> grind [equalItems]

theorem equalItems_trans {us vs ws : List Value}
    (each : ∀ u ∈ us, ∀ v w, u.equal v = true → v.equal w = true → u.equal w = true)
    (same : equalItems us vs = true) (also : equalItems vs ws = true) : equalItems us ws = true := by
  induction us generalizing vs ws with
  | nil => cases vs <;> cases ws <;> grind [equalItems]
  | cons u us ih => cases vs <;> cases ws <;> grind [equalItems]

theorem equal_symm {v w : Value} (same : v.equal w = true) : w.equal v = true := by
  induction v using itemwise generalizing w with
  | string s => cases w <;> grind [equal]
  | number n => cases w <;> grind [equal, Number.equal_symm]
  | array items ih => cases w <;> grind [equal, equalItems_symm]

theorem equal_trans {u v w : Value} (same : u.equal v = true) (also : v.equal w = true) : u.equal w = true := by
  induction u using itemwise generalizing v w with
  | string s => cases v <;> cases w <;> grind [equal]
  | number n => cases v <;> cases w <;> grind [equal, Number.equal_trans]
  | array items ih => cases v <;> cases w <;> grind [equal, equalItems_trans]

/-- Values that are not equal to themselves are all that equality lacks to be an equivalence. -/
instance : PartialEquivBEq Value :=
  ⟨equal_symm, equal_trans⟩

end Value

end Settings
