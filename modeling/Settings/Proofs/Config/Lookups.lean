import Mathlib.Logic.ExistsUnique
import Settings.Config
import Settings.Proofs.Target.Conversion

namespace Settings

/-- What there is at a path for a target type: no value, a value that is read as the type, or a value that
the type refuses. -/
inductive Finding (target : Target)
  | nothing
  | typed (v : Value) (x : target.Carrier)
  | refused (v : Value) (cause : Mismatch)

namespace Config

variable {config : Config} {path : String} {target : Target} {v : Value}

/-- What there is at a path of a configuration. -/
def finding (config : Config) (target : Target) (path : String) : Finding target :=
  match config.lookup path with
  | none => .nothing
  | some v => match target.read v with
    | .ok x => .typed v x
    | .error cause => .refused v cause

/-- All lookups of a path agree that this is what there is: each of them answers as it should then. -/
def Agree (config : Config) (path : String) (default : target.Carrier) : Finding target → Prop
  | .nothing =>
    config.has path = false ∧ config.getValue path = .error (.notFound path) ∧
      config.get target path = .error (.notFound path) ∧ config.getOptional target path = .ok none ∧
      config.getOr target path default = default
  | .typed v x =>
    config.has path = true ∧ config.getValue path = .ok v ∧ target.read v = .ok x ∧
      config.get target path = .ok x ∧ config.getOptional target path = .ok (some x) ∧
      config.getOr target path default = x
  | .refused v cause =>
    config.has path = true ∧ config.getValue path = .ok v ∧ target.read v = .error cause ∧
      config.get target path = .error (.mismatch cause (some path)) ∧
      config.getOptional target path = .error (.mismatch cause (some path)) ∧
      config.getOr target path default = default

theorem getValue_eq_ok_iff : config.getValue path = .ok v ↔ config.lookup path = some v := by
  unfold getValue
  cases config.lookup path <;> simp

theorem getValue_of_lookup_eq_none (absent : config.lookup path = none) :
    config.getValue path = .error (.notFound path) := by
  simp only [getValue, absent]

/-- A value that is there is read, and what is wrong with it is reported together with the path. -/
theorem get_of_lookup (found : config.lookup path = some v) :
    config.get target path = (target.read v).mapError fun cause => .mismatch cause (some path) := by
  simp only [get, getValue_eq_ok_iff.mpr found, Except.bind]

/-- All that a typed lookup can come to. -/
theorem get_cases (config : Config) (target : Target) (path : String) :
    (config.lookup path = none ∧ config.get target path = .error (.notFound path)) ∨
    (∃ v x, config.lookup path = some v ∧ target.read v = .ok x ∧ config.get target path = .ok x) ∨
    ∃ v cause, config.lookup path = some v ∧ target.read v = .error cause ∧
      config.get target path = .error (.mismatch cause (some path)) := by
  cases found : config.lookup path with
  | none => exact Or.inl ⟨rfl, by simp only [get, getValue_of_lookup_eq_none found, Except.bind]⟩
  | some v =>
    have got : config.get target path = _ := get_of_lookup found
    cases read : target.read v with
    | ok x =>
      simp only [read, Except.mapError] at got
      exact Or.inr (Or.inl ⟨v, x, rfl, read, got⟩)
    | error cause =>
      simp only [read, Except.mapError] at got
      exact Or.inr (Or.inr ⟨v, cause, rfl, read, got⟩)

theorem agree_finding (default : target.Carrier) : config.Agree path default (config.finding target path) := by
  rcases config.get_cases target path with ⟨absent, got⟩ | ⟨v, x, found, read, got⟩ |
    ⟨v, cause, found, read, got⟩
  · simp only [finding, absent, Agree, has, Option.isSome_none, getValue, getOptional, getOr, got, and_self]
  · simp only [finding, found, read, Agree, has, Option.isSome_some, getValue, getOptional, getOr, got, and_self]
  · simp only [finding, found, read, Agree, has, Option.isSome_some, getValue, getOptional, getOr, got, and_self]

/-- The value and what it is read as tell what there is. -/
theorem Agree.eq_finding {default : target.Carrier} {found : Finding target}
    (agree : config.Agree path default found) : found = config.finding target path := by
  unfold finding
  cases found with
  | nothing =>
    obtain ⟨absent, -⟩ := agree
    unfold has at absent
    simp only [Option.isSome_eq_false_iff, Option.isNone_iff_eq_none] at absent
    simp only [absent]
  | typed v x =>
    obtain ⟨-, value, read, -⟩ := agree
    simp only [getValue_eq_ok_iff.mp value, read]
  | refused v cause =>
    obtain ⟨-, value, read, -⟩ := agree
    simp only [getValue_eq_ok_iff.mp value, read]

/-- The lookups of a path are coherent: there is nothing, or a value that is read, or a value that is refused,
one of the three and in one way, and all lookups answer accordingly. A value that is there is never reported
as missing, and if it is refused at any depth the first part that does not fit is reported, with the path. No
other error comes out. -/
theorem lookups_coherent (config : Config) (path : String) (target : Target) :
    (∀ default, ∃! found : Finding target, config.Agree path default found) ∧
    (∀ cause, (Error.mismatch cause (some path)).message =
      (Error.mismatch cause none).message ++ " (at '" ++ path ++ "')") ∧
    (∀ v, config.getValue path = .ok v →
      config.getOptional target path ≠ .ok none ∧
      (∀ other, config.get target path ≠ .error (.notFound other)) ∧
      ∀ leaf, target.Breaks v leaf →
        config.get target path = .error (.mismatch (leaf.1.refusal leaf.2) (some path)) ∧
        config.getOptional target path = .error (.mismatch (leaf.1.refusal leaf.2) (some path))) ∧
    (∀ e, config.get target path = .error e → e = .notFound path ∨ ∃ cause, e = .mismatch cause (some path)) ∧
    ∀ e, config.getOptional target path = .error e → ∃ cause, e = .mismatch cause (some path) := by
  refine ⟨fun default => ⟨_, agree_finding default, fun found => Agree.eq_finding⟩, fun cause => rfl, ?_, ?_⟩
  · intro v value
    have found := getValue_eq_ok_iff.mp value
    rcases config.get_cases target path with ⟨absent, -⟩ | ⟨w, x, located, read, got⟩ |
      ⟨w, cause, located, read, got⟩
    · simp only [absent, reduceCtorEq] at found
    · obtain rfl : v = w := Option.some.inj (found.symm.trans located)
      have fits := Target.exists_read_eq_ok_iff.mp ⟨x, read⟩
      refine ⟨by simp [getOptional, got], by simp [got], ?_⟩
      intro leaf breaks
      exact absurd fits breaks.not_fits
    · obtain rfl : v = w := Option.some.inj (found.symm.trans located)
      refine ⟨by simp [getOptional, got], by simp [got], ?_⟩
      intro leaf breaks
      obtain ⟨first, also, rfl⟩ := Target.read_eq_error_iff.mp read
      rw [breaks.unique also]
      exact ⟨got, by simp only [getOptional, got]⟩
  · rcases config.get_cases target path with ⟨-, got⟩ | ⟨v, x, -, -, got⟩ | ⟨v, cause, -, -, got⟩ <;>
      simp [getOptional, got, eq_comm]

/-- A number too large for a byte, in the second of two rows and in front of a string. -/
theorem lookups_coherent_rows :
    let rows := Value.array [.array [.int 1, .int 2], .array [.int 300, .string "x"]]
    let config : Config := ⟨Table.ofList [("grid", rows)], .empty⟩
    let byte := Target.integer .unsigned8
    config.getValue "grid" = .ok rows ∧ byte.list.list.Breaks rows (byte, .int 300) ∧
      config.getOptional byte.list.list "grid" = .error (.mismatch (.range 300 .unsigned8) (some "grid")) := by
  intro rows config byte
  have value : config.getValue "grid" = .ok rows := rfl
  have breaks : byte.list.list.Breaks rows (byte, .int 300) := by
    refine ⟨[(byte, .int 1), (byte, .int 2)], [(byte, .string "x")], rfl, ?_, ?_⟩
    · intro earlier member
      simp only [List.mem_cons, List.not_mem_nil, or_false] at member
      rcases member with rfl | rfl
      · exact ⟨1, rfl, by decide⟩
      · exact ⟨2, rfl, by decide⟩
    · rintro ⟨n, same, inside⟩
      cases same
      exact absurd inside (by decide)
  obtain ⟨-, -, present, -⟩ := lookups_coherent config "grid" byte.list.list
  exact ⟨value, breaks, ((present rows value).2.2 _ breaks).2⟩

end Config

end Settings
