import Mathlib.Data.List.Forall2

namespace Settings

variable {α β ε : Type} {x : Except ε α} {f : α → Except ε β} {xs : List α}

theorem map_eq_ok_iff {g : α → β} {b : β} : x.map g = .ok b ↔ ∃ a, x = .ok a ∧ b = g a := by
  cases x <;> simp [Except.map, eq_comm]

theorem eq_error_of_map_eq_error {g : α → β} {e : ε} (failed : x.map g = .error e) : x = .error e := by
  cases x with
  | error other =>
    cases failed
    rfl
  | ok a => cases failed

theorem bind_eq_ok_iff {g : α → Except ε β} {b : β} : x.bind g = .ok b ↔ ∃ a, x = .ok a ∧ g a = .ok b := by
  cases x <;> simp [Except.bind]

/-- A traversal succeeds with what becomes of the items, one for one. -/
theorem mapM_eq_ok_iff {ys : List β} : xs.mapM f = .ok ys ↔ List.Forall₂ (fun x y => f x = .ok y) xs ys := by
  induction xs generalizing ys with
  | nil => simp [pure, Except.pure, eq_comm]
  | cons x rest ih =>
    have first : (x :: rest).mapM f = .ok ys ↔
        ∃ y others, f x = .ok y ∧ rest.mapM f = .ok others ∧ ys = y :: others := by
      rw [List.mapM_cons]
      cases f x <;> cases rest.mapM f <;> simp [bind, Except.bind, pure, Except.pure, eq_comm]
    rw [first, List.forall₂_cons_left_iff]
    simp only [ih]

/-- A traversal fails with its first item that fails. -/
theorem exists_of_mapM_eq_error {e : ε} (failed : xs.mapM f = .error e) :
    ∃ before x after, xs = before ++ x :: after ∧ (∀ earlier ∈ before, ∃ y, f earlier = .ok y) ∧
      f x = .error e := by
  induction xs with
  | nil => cases failed
  | cons x rest ih =>
    rw [List.mapM_cons] at failed
    cases here : f x with
    | error other =>
      rw [here] at failed
      cases failed
      exact ⟨[], x, rest, rfl, nofun, here⟩
    | ok y =>
      cases later : rest.mapM f with
      | error other =>
        rw [here, later] at failed
        cases failed
        obtain ⟨before, bad, after, rfl, fine, first⟩ := ih later
        exact ⟨x :: before, bad, after, rfl, List.forall_mem_cons.mpr ⟨⟨y, here⟩, fine⟩, first⟩
      | ok others =>
        rw [here, later] at failed
        cases failed

end Settings
