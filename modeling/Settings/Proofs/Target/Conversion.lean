import Settings.Proofs.Except.Results
import Settings.Target

namespace Settings

variable {α β : Type} {xs : List α}

theorem exists_forall₂_iff {R : α → β → Prop} : (∃ ys, List.Forall₂ R xs ys) ↔ ∀ x ∈ xs, ∃ y, R x y := by
  induction xs with
  | nil => simp
  | cons x rest ih =>
    rw [List.forall_mem_cons, ← ih]
    constructor
    · rintro ⟨ys, all⟩
      obtain ⟨y, others, first, later, -⟩ := List.forall₂_cons_left_iff.mp all
      exact ⟨⟨y, first⟩, others, later⟩
    · rintro ⟨⟨y, first⟩, ys, later⟩
      exact ⟨y :: ys, .cons first later⟩

namespace Target

/-- A member of a target type is what a value converts to. Strings and integers are as they are in the value,
a number becomes a float, and an array becomes the list of what its items convert to. -/
def Converts : (target : Target) → Value → target.Carrier → Prop
  | string, v, s => v = .string s
  | double, v, x => ∃ n, v = .number n ∧ x = n.toDouble
  | single, v, x => ∃ n, v = .number n ∧ x = n.toDouble.convert
  | integer _, v, n => ∃ i, v = .int i ∧ i.toInt = n.val
  | list element, v, xs => ∃ items, v = .array items ∧ List.Forall₂ element.Converts items xs

/-- A value is what a target asks for, at every depth. -/
def Fits : Target → Value → Prop
  | string, v => ∃ s, v = .string s
  | double, v => ∃ n, v = .number n
  | single, v => ∃ n, v = .number n
  | integer type, v => ∃ n, v = .int n ∧ type.lower ≤ n.toInt ∧ n.toInt ≤ type.upper
  | list element, v => ∃ items, v = .array items ∧ ∀ item ∈ items, element.Fits item

/-- What is wrong with a value that a target refuses for what it is at its top: its kind, or for an integer
its size. -/
def refusal : Target → Value → Mismatch
  | string, v => .kind .string v.kind
  | double, v => .kind .number v.kind
  | single, v => .kind .number v.kind
  | integer type, .number (.int n) => .range n type
  | integer _, v => .kind .integer v.kind
  | list _, v => .kind .array v.kind

/-- The parts of a value that a target does not look into, from left to right, each with its own target. -/
def leaves : Target → Value → List (Target × Value)
  | list element, .array items => items.flatMap element.leaves
  | target, v => [(target, v)]

theorem toText_eq_ok_iff {v : Value} {s : String} : toText v = .ok s ↔ v = .string s := by
  cases v <;> simp [toText]

theorem toNumber_eq_ok_iff {v : Value} {n : Number} : toNumber v = .ok n ↔ v = .number n := by
  cases v <;> simp [toNumber, Value.number?]

theorem toItems_eq_ok_iff {v : Value} {items : List Value} : toItems v = .ok items ↔ v = .array items := by
  cases v <;> simp [toItems, Value.items?]

theorem toInteger_eq_ok_iff {type : IntegerType} {v : Value} {n : type.Carrier} :
    toInteger type v = .ok n ↔ ∃ i : Int64, v = .int i ∧ i.toInt = n.val := by
  constructor
  · intro read
    unfold toInteger at read
    split at read
    · split at read
      · cases read
        exact ⟨_, rfl, rfl⟩
      · cases read
    · cases read
  · rintro ⟨i, rfl, same⟩
    have inside : type.lower ≤ i.toInt ∧ i.toInt ≤ type.upper := same ▸ n.property
    rw [Value.int, toInteger, dif_pos inside]
    exact congrArg Except.ok (Subtype.ext same)

theorem map_toNumber_eq_ok_iff {v : Value} {g : Number → α} {a : α} :
    (toNumber v).map g = .ok a ↔ ∃ n, v = .number n ∧ a = g n := by
  simp only [map_eq_ok_iff, toNumber_eq_ok_iff]

theorem bind_toItems_eq_ok_iff {v : Value} {g : List Value → Except Mismatch α} {a : α} :
    (toItems v).bind g = .ok a ↔ ∃ items, v = .array items ∧ g items = .ok a := by
  simp only [bind_eq_ok_iff, toItems_eq_ok_iff]

variable {target : Target} {v : Value} {leaf other : Target × Value} {m : Mismatch}

/-- What a value is read as, and when, is what it converts to. -/
theorem read_eq_ok_iff {x : target.Carrier} : target.read v = .ok x ↔ target.Converts v x := by
  induction target generalizing v with
  | string => exact toText_eq_ok_iff
  | double => exact map_toNumber_eq_ok_iff
  | single => exact map_toNumber_eq_ok_iff
  | integer type => exact toInteger_eq_ok_iff
  | list element ih =>
    refine bind_toItems_eq_ok_iff.trans (exists_congr fun items => and_congr_right fun _ => ?_)
    refine mapM_eq_ok_iff.trans ?_
    simp only [ih]

theorem exists_converts_iff : (∃ x, target.Converts v x) ↔ target.Fits v := by
  induction target generalizing v with
  | string => exact Iff.rfl
  | double => exact ⟨fun ⟨_, n, same, _⟩ => ⟨n, same⟩, fun ⟨n, same⟩ => ⟨_, n, same, rfl⟩⟩
  | single => exact ⟨fun ⟨_, n, same, _⟩ => ⟨n, same⟩, fun ⟨n, same⟩ => ⟨_, n, same, rfl⟩⟩
  | integer type =>
    constructor
    · rintro ⟨n, i, rfl, same⟩
      exact ⟨i, rfl, same ▸ n.property⟩
    · rintro ⟨i, rfl, inside⟩
      exact ⟨⟨i.toInt, inside⟩, i, rfl, rfl⟩
  | list element ih =>
    simp only [Converts, Fits, ← ih]
    rw [exists_comm]
    refine exists_congr fun items => ?_
    rw [← exists_forall₂_iff]
    exact exists_and_left

/-- A value is read if it fits, at its top and below. -/
theorem exists_read_eq_ok_iff : (∃ x, target.read v = .ok x) ↔ target.Fits v := by
  simp only [read_eq_ok_iff, exists_converts_iff]

theorem leaves_cases (target : Target) (v : Value) : target.leaves v = [(target, v)] ∨
    ∃ element items, target = .list element ∧ v = .array items := by
  cases target with
  | list element =>
    cases v with
    | array items => exact Or.inr ⟨element, items, rfl, rfl⟩
    | _ => exact Or.inl (by simp only [leaves])
  | _ => exact Or.inl (by simp only [leaves])

theorem fits_iff_leaves : target.Fits v ↔ ∀ leaf ∈ target.leaves v, leaf.1.Fits leaf.2 := by
  induction target generalizing v with
  | list element ih =>
    rcases leaves_cases element.list v with single | ⟨_, items, ⟨⟩, rfl⟩
    · rw [single, List.forall_mem_singleton]
    · simp only [leaves, Fits, Value.array.injEq, exists_eq_left', List.mem_flatMap, ih]
      constructor
      · rintro fine leaf ⟨item, member, inside⟩
        exact fine item member leaf inside
      · intro fine item member leaf inside
        exact fine leaf ⟨item, member, inside⟩
  | _ => simp only [leaves, List.forall_mem_singleton]

theorem leaves_of_mem_leaves (member : leaf ∈ target.leaves v) : leaf.1.leaves leaf.2 = [leaf] := by
  induction target generalizing v with
  | list element ih =>
    rcases leaves_cases element.list v with single | ⟨_, items, ⟨⟩, rfl⟩
    · rw [single, List.mem_singleton] at member
      rw [member, single]
    · obtain ⟨item, -, inside⟩ := List.mem_flatMap.mp member
      exact ih inside
  | _ =>
    simp only [leaves, List.mem_singleton] at member
    simp only [member, leaves]

theorem eq_range_of_toInteger_error {type : IntegerType} {n : Int64}
    (failed : toInteger type (.number (.int n)) = .error m) : m = .range n type := by
  rw [toInteger] at failed
  split at failed <;> cases failed
  rfl

/-- A value that is not traversed is refused for what it is at its top. -/
theorem eq_refusal_of_read_error
    (top : ∀ element items, target = .list element → v ≠ .array items) (failed : target.read v = .error m) :
    m = target.refusal v := by
  cases target with
  | integer type =>
    rcases v with s | (n | x) | items
    · cases failed
      rfl
    · exact eq_range_of_toInteger_error failed
    · cases failed
      rfl
    · cases failed
      rfl
  | list element =>
    cases v with
    | array items => exact absurd rfl (top element items rfl)
    | _ =>
      cases failed
      rfl
  | _ => cases v <;> cases failed <;> rfl

/-- A leaf is the first that does not fit. -/
def Breaks (target : Target) (v : Value) (leaf : Target × Value) : Prop :=
  ∃ before after, target.leaves v = before ++ leaf :: after ∧
    (∀ earlier ∈ before, earlier.1.Fits earlier.2) ∧ ¬ leaf.1.Fits leaf.2

open Classical in
theorem breaks_iff_find? :
    target.Breaks v leaf ↔
      (target.leaves v).find? (fun other => decide (¬ other.1.Fits other.2)) = some leaf := by
  rw [List.find?_eq_some_iff_append]
  simp only [decide_not, Bool.not_not, Bool.not_eq_true', decide_eq_true_eq, decide_eq_false_iff_not]
  constructor
  · rintro ⟨before, after, division, fine, bad⟩
    exact ⟨bad, before, after, division, fine⟩
  · rintro ⟨bad, before, after, division, fine⟩
    exact ⟨before, after, division, fine, bad⟩

theorem Breaks.unique (first : target.Breaks v leaf) (second : target.Breaks v other) : leaf = other :=
  Option.some.inj ((breaks_iff_find?.mp first).symm.trans (breaks_iff_find?.mp second))

theorem Breaks.mem_leaves (breaks : target.Breaks v leaf) : leaf ∈ target.leaves v := by
  obtain ⟨before, after, division, -, -⟩ := breaks
  rw [division]
  exact List.mem_append_right before List.mem_cons_self

theorem Breaks.unfit (breaks : target.Breaks v leaf) : ¬ leaf.1.Fits leaf.2 := by
  obtain ⟨_, _, -, -, bad⟩ := breaks
  exact bad

theorem Breaks.not_fits (breaks : target.Breaks v leaf) : ¬ target.Fits v :=
  fun fits => breaks.unfit (fits_iff_leaves.mp fits leaf breaks.mem_leaves)

theorem not_fits_of_read_error (failed : target.read v = .error m) : ¬ target.Fits v := by
  intro fits
  obtain ⟨x, succeeded⟩ := exists_read_eq_ok_iff.mpr fits
  rw [succeeded] at failed
  cases failed

theorem exists_breaks_of_top
    (top : ∀ element items, target = .list element → v ≠ .array items) (failed : target.read v = .error m) :
    ∃ leaf, target.Breaks v leaf ∧ m = leaf.1.refusal leaf.2 := by
  rcases leaves_cases target v with single | ⟨element, items, isList, isArray⟩
  · exact ⟨(target, v), ⟨[], [], single, nofun, not_fits_of_read_error failed⟩,
      eq_refusal_of_read_error top failed⟩
  · exact absurd isArray (top element items isList)

/-- The first leaf that does not fit is the reason why a value is refused. -/
theorem exists_breaks_of_read_error
    (failed : target.read v = .error m) : ∃ leaf, target.Breaks v leaf ∧ m = leaf.1.refusal leaf.2 := by
  induction target generalizing v with
  | list element ih =>
    cases v with
    | array traversed =>
      obtain ⟨items, item, others, rfl, earlier, bad⟩ := exists_of_mapM_eq_error failed
      obtain ⟨leaf, ⟨before, after, division, fine, unfit⟩, reason⟩ := ih bad
      refine ⟨leaf, ⟨items.flatMap element.leaves ++ before, after ++ others.flatMap element.leaves, ?_, ?_,
        unfit⟩, reason⟩
      · rw [leaves, List.flatMap_append, List.flatMap_cons, division]
        simp only [List.append_assoc, List.cons_append]
      · intro other member
        rcases List.mem_append.mp member with front | inside
        · obtain ⟨fitting, place, among⟩ := List.mem_flatMap.mp front
          exact fits_iff_leaves.mp (exists_read_eq_ok_iff.mp (earlier fitting place)) other among
        · exact fine other inside
    | _ => exact exists_breaks_of_top nofun failed
  | _ => exact exists_breaks_of_top nofun failed

theorem read_eq_error_iff :
    target.read v = .error m ↔ ∃ leaf, target.Breaks v leaf ∧ m = leaf.1.refusal leaf.2 := by
  constructor
  · exact exists_breaks_of_read_error
  · rintro ⟨leaf, breaks, rfl⟩
    cases read : target.read v with
    | ok x => exact absurd (exists_read_eq_ok_iff.mp ⟨x, read⟩) breaks.not_fits
    | error other =>
      obtain ⟨reason, first, rfl⟩ := exists_breaks_of_read_error read
      rw [breaks.unique first]

/-- The first leaf that does not fit is refused alike on its own. -/
theorem Breaks.alone (breaks : target.Breaks v leaf) : leaf.1.Breaks leaf.2 leaf :=
  ⟨[], [], leaves_of_mem_leaves breaks.mem_leaves, nofun, breaks.unfit⟩

end Target

/-- Every member of a plain type is what the value that stands for it converts to. -/
theorem Plain.converts_of (plain : Plain) (x : plain.target.Carrier) :
    plain.target.Converts (Value.of plain x) x := by
  induction plain with
  | string => exact rfl
  | integer =>
    obtain ⟨n, lower, upper⟩ := x
    refine ⟨Int64.ofInt n, rfl, ?_⟩
    simp only [IntegerType.lower, IntegerType.upper] at lower upper
    exact Int64.toInt_ofInt_of_le (by omega) (by omega)
  | double => exact ⟨.float x, rfl, rfl⟩
  | list element ih =>
    refine ⟨_, rfl, List.forall₂_map_left_iff.mpr (List.forall₂_same.mpr ?_)⟩
    exact fun member _ => ih member

namespace Target

/-- A value is read where it fits at every depth, as what it converts to. Otherwise it is refused for the
first leaf that does not fit, in the way in which that leaf is refused alone. What stands for a member of a
plain type is read as that member. -/
theorem read_elementwise :
    (∀ (target : Target) (v : Value),
      ((∃ x, target.read v = .ok x) ↔ target.Fits v) ∧
      (∀ x, target.read v = .ok x ↔ target.Converts v x) ∧
      ∀ m, target.read v = .error m ↔
        ∃ leaf, target.Breaks v leaf ∧ leaf.1.read leaf.2 = .error m ∧ m = leaf.1.refusal leaf.2) ∧
    ∀ (plain : Plain) (x : plain.target.Carrier), plain.target.read (Value.of plain x) = .ok x := by
  refine ⟨fun target v => ⟨exists_read_eq_ok_iff, fun x => read_eq_ok_iff, ?_⟩, ?_⟩
  · intro m
    rw [read_eq_error_iff]
    refine exists_congr fun leaf => and_congr_right fun breaks => ?_
    rw [read_eq_error_iff]
    constructor
    · intro reason
      exact ⟨⟨leaf, breaks.alone, reason⟩, reason⟩
    · exact And.right
  · intro plain x
    exact read_eq_ok_iff.mpr (plain.converts_of x)

end Target

end Settings
