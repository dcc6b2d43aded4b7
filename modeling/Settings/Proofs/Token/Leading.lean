import Settings.Proofs.Text.Digits
import Settings.Proofs.Text.Trim
import Settings.Token

namespace Settings

/-- A name as settings have it: an ASCII letter, with ASCII letters and digits behind it. -/
def IsIdentifier (name : String) : Prop :=
  ∃ first rest, name.toList = first :: rest ∧ first.isAlpha = true ∧ ∀ c ∈ rest, c.isAlphanum = true

theorem not_isBlank_of_isAlphanum {c : Char} (letter : c.isAlphanum = true) :
    Text.isBlank c = false := by
  have range : 48 ≤ c.toNat ∧ c.toNat ≤ 57 ∨ 65 ≤ c.toNat ∧ c.toNat ≤ 90 ∨
      97 ≤ c.toNat ∧ c.toNat ≤ 122 := by
    delta Char.isAlphanum Char.isAlpha Char.isUpper Char.isLower Char.isDigit at letter
    simp only [Bool.or_eq_true, Bool.and_eq_true, decide_eq_true_eq, ge_iff_le, UInt32.le_iff_toNat_le] at letter
    simp only [Char.toNat]
    change (65 ≤ c.val.toNat ∧ c.val.toNat ≤ 90 ∨ 97 ≤ c.val.toNat ∧ c.val.toNat ≤ 122) ∨
      48 ≤ c.val.toNat ∧ c.val.toNat ≤ 57 at letter
    omega
  simp only [Text.isBlank, Bool.or_eq_false_iff, Bool.and_eq_false_iff, decide_eq_false_iff_not,
    beq_eq_false_iff_ne]
  omega

theorem isAlphanum_of_isAlpha {c : Char} (letter : c.isAlpha = true) : c.isAlphanum = true := by
  rw [Char.isAlphanum, letter, Bool.true_or]

namespace IsIdentifier

variable {name : String}

theorem isAlphanum_of_mem (identifier : IsIdentifier name) {c : Char} (member : c ∈ name.toList) :
    c.isAlphanum = true := by
  obtain ⟨first, rest, spelled, letter, more⟩ := identifier
  rw [spelled] at member
  rcases List.mem_cons.mp member with rfl | behind
  · exact isAlphanum_of_isAlpha letter
  · exact more c behind

theorem not_mem (identifier : IsIdentifier name) {c : Char} (other : c.isAlphanum = false) :
    c ∉ name.toList := by
  intro member
  rw [identifier.isAlphanum_of_mem member] at other
  cases other

/-- What starts with a name does not start with a blank. -/
theorem head?_append (identifier : IsIdentifier name) {rest : List Char} {c : Char}
    (first : (name.toList ++ rest).head? = some c) : Text.isBlank c = false := by
  obtain ⟨letter, more, spelled, alpha, _⟩ := identifier
  rw [spelled] at first
  cases first
  exact not_isBlank_of_isAlphanum (isAlphanum_of_isAlpha alpha)

end IsIdentifier

/-- No name goes on in a text. -/
def Unnamed (text : List Char) : Prop :=
  ∀ c, text.head? = some c → c.isAlphanum = false

namespace Token

theorem leading_letter {c : Char} (rest : List Char) (letter : c.isAlpha = true) :
    leading (c :: rest) = .ident (String.ofList (c :: rest.takeWhile Char.isAlphanum)) := by
  rw [leading.eq_def]
  split
  · rename_i empty
    cases empty
  · rename_i define
    cases define
    cases letter
  · rename_i colon
    cases colon
    cases letter
  · rename_i plain
    cases plain
    exact if_pos letter

theorem leading_name {name : String} {rest : List Char} (identifier : IsIdentifier name)
    (ended : Unnamed rest) : leading (name.toList ++ rest) = .ident name := by
  obtain ⟨first, more, spelled, letter, alphanum⟩ := identifier
  obtain ⟨taken, -⟩ := Text.takeWhile_run alphanum ended
  rw [spelled, List.cons_append, leading_letter _ letter, taken, ← spelled, String.ofList_toList]

theorem leading_eq_ident_iff {text : List Char} {name : String} :
    leading text = .ident name ↔
      IsIdentifier name ∧ ∃ rest, text = name.toList ++ rest ∧ Unnamed rest := by
  constructor
  · intro found
    rw [leading.eq_def] at found
    split at found
    · cases found
    · cases found
    · cases found
    · rename_i c rest _ _
      split at found
      · rename_i letter
        cases found
        refine ⟨⟨c, _, String.toList_ofList, letter, fun d member => List.mem_takeWhile_imp member⟩,
          rest.dropWhile Char.isAlphanum, ?_, ?_⟩
        · rw [String.toList_ofList, List.cons_append, List.takeWhile_append_dropWhile]
        · intro d first
          have stopped := List.head?_dropWhile_not Char.isAlphanum rest
          rw [first] at stopped
          simpa using stopped
      · cases found
  · rintro ⟨identifier, rest, rfl, ended⟩
    exact leading_name identifier ended

theorem leading_eq_define_iff {text : List Char} :
    leading text = .define ↔ ∃ rest, text = ':' :: '=' :: rest := by
  constructor
  · intro found
    rw [leading.eq_def] at found
    split at found
    · cases found
    · exact ⟨_, rfl⟩
    · cases found
    · split at found <;> cases found
  · rintro ⟨rest, rfl⟩
    rfl

theorem leading_eq_colon_iff {text : List Char} :
    leading text = .colon ↔ ∃ rest, text = ':' :: rest ∧ rest.head? ≠ some '=' := by
  constructor
  · intro found
    rw [leading.eq_def] at found
    split at found
    · cases found
    · cases found
    · rename_i rest other
      refine ⟨rest, rfl, ?_⟩
      intro first
      obtain ⟨more, rfl⟩ := List.head?_eq_some_iff.mp first
      exact other more rfl
    · split at found <;> cases found
  · rintro ⟨rest, rfl, other⟩
    cases rest with
    | nil => rfl
    | cons c rest =>
      rw [leading.eq_def]
      split
      · rename_i empty
        cases empty
      · rename_i define
        cases define
        exact absurd rfl other
      · rfl
      · rename_i plain
        cases plain
        exact absurd rfl (by assumption)

theorem leading_eq_eof_iff {text : List Char} : leading text = .eof ↔ text = [] := by
  constructor
  · intro found
    rw [leading.eq_def] at found
    split at found
    · rfl
    · cases found
    · cases found
    · split at found <;> cases found
  · rintro rfl
    rfl

theorem head?_of_leading_unexpected {text : List Char} {c : Char} (found : leading text = .unexpected c) :
    text.head? = some c := by
  rw [leading.eq_def] at found
  split at found
  · cases found
  · cases found
  · cases found
  · split at found <;> cases found
    rfl

/-- Only the end of a text is no character. -/
theorem spelling_leading_ne_nil {text : List Char} (more : leading text ≠ .eof) :
    (leading text).spelling ≠ [] := by
  cases found : leading text with
  | ident name =>
    obtain ⟨⟨first, rest, spelled, -⟩, -⟩ := leading_eq_ident_iff.mp found
    simp only [spelling, spelled, ne_eq, reduceCtorEq, not_false_eq_true]
  | define => exact List.cons_ne_nil _ _
  | colon => exact List.cons_ne_nil _ _
  | unexpected c => exact List.cons_ne_nil _ _
  | eof => exact absurd found more

/-- A text starts with the characters of its first token. -/
theorem spelling_leading_prefix (text : List Char) : (leading text).spelling <+: text := by
  rw [leading.eq_def]
  split
  · exact List.nil_prefix
  · exact ⟨_, rfl⟩
  · exact ⟨_, rfl⟩
  · rename_i c rest _ _
    split
    · simp only [spelling, String.toList_ofList, List.cons_prefix_cons, true_and]
      exact List.takeWhile_prefix Char.isAlphanum
    · exact ⟨rest, rfl⟩

/-- A text starts with an operator if it starts with its characters. A colon in front of an equals
sign is part of another operator. -/
theorem leading_eq_operator_iff {operator : Token} {text : List Char}
    (known : operator = .define ∨ operator = .colon) :
    leading text = operator ↔
      ∃ rest, text = operator.spelling ++ rest ∧ (operator = .colon → rest.head? ≠ some '=') := by
  rcases known with rfl | rfl
  · rw [leading_eq_define_iff]
    constructor
    · rintro ⟨rest, rfl⟩
      exact ⟨rest, rfl, nofun⟩
    · rintro ⟨rest, rfl, -⟩
      exact ⟨rest, rfl⟩
  · rw [leading_eq_colon_iff]
    constructor
    · rintro ⟨rest, rfl, other⟩
      exact ⟨rest, rfl, fun _ => other⟩
    · rintro ⟨rest, rfl, other⟩
      exact ⟨rest, rfl, other rfl⟩

end Token

end Settings
