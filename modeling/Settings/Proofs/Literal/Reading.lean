import Mathlib.Data.List.Forall2
import Mathlib.Data.List.TakeWhile
import Settings.Literal.Reading
import Settings.Proofs.Except.Results
import Settings.Statement

namespace Settings

theorem Text.enclosed?_eq_some_iff {first last : Char} {text interior : List Char} :
    enclosed? first last text = some interior ↔ text = first :: (interior ++ [last]) := by
  constructor
  · exact eq_of_enclosed?
  · rintro rfl
    rw [enclosed?, if_pos ⟨rfl, List.getLast?_concat⟩, List.dropLast_concat]

theorem Text.enclosed?_of_head {first last c : Char} {rest : List Char} (other : c ≠ first) :
    enclosed? first last (c :: rest) = none := by
  rw [enclosed?, if_neg (fun ends => other ends.1)]

theorem exists_right_of_mem {α β : Type} {R : α → β → Prop} {xs : List α} {ys : List β} {x : α}
    (all : List.Forall₂ R xs ys) (member : x ∈ xs) : ∃ y ∈ ys, R x y := by
  induction all with
  | nil => cases member
  | cons first _ ih =>
    rcases List.mem_cons.mp member with rfl | behind
    · exact ⟨_, List.mem_cons_self, first⟩
    · obtain ⟨y, inside, related⟩ := ih behind
      exact ⟨y, List.mem_cons_of_mem _ inside, related⟩

theorem exists_left_of_mem {α β : Type} {R : α → β → Prop} {xs : List α} {ys : List β} {y : β}
    (all : List.Forall₂ R xs ys) (member : y ∈ ys) : ∃ x ∈ xs, R x y :=
  exists_right_of_mem (List.Forall₂.flip (R := flip R) all) member

namespace Literal

theorem Numeral.mem_of_ofText? {text : List Char} {numeral : Numeral} {c : Char}
    (found : ofText? text = some numeral) (member : c ∈ text) :
    c.isDigit = true ∨ c = '-' ∨ c = '.' := by
  simp only [ofText?] at found
  have unsigned : c = '-' ∨ c ∈ if text.head? = some '-' then text.tail else text := by
    split
    · rename_i minus
      obtain ⟨rest, rfl⟩ := List.head?_eq_some_iff.mp minus
      exact List.mem_cons.mp member
    · exact Or.inr member
  rcases unsigned with minus | inNumber
  · exact Or.inr (Or.inl minus)
  · generalize (if text.head? = some '-' then text.tail else text) = number at found inNumber
    rw [← List.takeWhile_append_dropWhile (p := Char.isDigit) (l := number)] at inNumber
    rcases List.mem_append.mp inNumber with whole | later
    · exact Or.inl (List.mem_takeWhile_imp whole)
    · split at found
      · cases found
      · split at found
        · rename_i none
          rw [none] at later
          cases later
        · rename_i point fraction shape
          rw [shape] at later
          split at found
          · rename_i digits
            rcases List.mem_cons.mp later with first | behind
            · exact Or.inr (Or.inr (first.trans digits.1))
            · exact Or.inl (List.all_eq_true.mp digits.2.2 c behind)
          · cases found

theorem Numeral.ofText?_eq_none {text : List Char} {c : Char} (member : c ∈ text)
    (other : c.isDigit = false ∧ c ≠ '-' ∧ c ≠ '.') : ofText? text = none := by
  cases found : ofText? text with
  | none => rfl
  | some numeral =>
    rcases mem_of_ofText? found member with digit | minus | point
    · rw [other.1] at digit
      cases digit
    · exact absurd minus other.2.1
    · exact absurd point other.2.2

theorem elements?_braces (interior : List Char) :
    elements? ('{' :: (interior ++ ['}'])) =
      (separate interior).map fun parts => (parts.map Text.trim).filter (· ≠ []) := by
  rw [elements?, Text.enclosed?_eq_some_iff.mpr rfl, Option.bind_some]

theorem readAll_eq_ok_iff {parts : List (List Char)} {items : List Value} :
    readAll parts = .ok items ↔ List.Forall₂ (fun part v => read part = .ok v) parts items := by
  induction parts generalizing items with
  | nil =>
    rw [readAll, List.forall₂_nil_left_iff, Except.ok.injEq, eq_comm]
  | cons part rest ih =>
    rw [readAll, List.forall₂_cons_left_iff]
    simp only [bind_eq_ok_iff, map_eq_ok_iff, ih]
    constructor
    · rintro ⟨v, first, others, later, rfl⟩
      exact ⟨v, others, first, later, rfl⟩
    · rintro ⟨v, others, first, later, rfl⟩
      exact ⟨v, first, others, later, rfl⟩

/-- A literal is a string, a number or an array, by its first character. -/
theorem read_eq_ok_cases {text : List Char} {v : Value} (accepted : read text = .ok v) :
    (∃ characters, text = '\'' :: (characters ++ ['\'']) ∧
      v = .string (String.ofList characters)) ∨
    (∃ numeral n, Numeral.ofText? text = some numeral ∧ numeral.number? = some n ∧
      v = .number n) ∨
    ∃ interior parts items, text = '{' :: (interior ++ ['}']) ∧
      separate interior = some parts ∧
      readAll ((parts.map Text.trim).filter (· ≠ [])) = .ok items ∧ v = .array items := by
  rw [read] at accepted
  split at accepted
  · rename_i characters quoted
    cases accepted
    exact Or.inl ⟨characters, Text.eq_of_enclosed? quoted, rfl⟩
  · split at accepted
    · rename_i numeral written
      split at accepted
      · rename_i n value
        cases accepted
        exact Or.inr (Or.inl ⟨numeral, n, written, value, rfl⟩)
      · cases accepted
    · split at accepted
      · rename_i elements divided
        obtain ⟨interior, inside, division⟩ := Option.bind_eq_some_iff.mp divided
        obtain ⟨parts, separated, rfl⟩ := Option.map_eq_some_iff.mp division
        obtain ⟨items, all, rfl⟩ := map_eq_ok_iff.mp accepted
        exact Or.inr (Or.inr
          ⟨interior, parts, items, Text.eq_of_enclosed? inside, separated, all, rfl⟩)
      · cases accepted

/-- In braces the elements are read, if the braces inside balance. -/
theorem read_braces (interior : List Char) :
    read ('{' :: (interior ++ ['}'])) = match separate interior with
      | some parts => (readAll ((parts.map Text.trim).filter (· ≠ []))).map .array
      | none => .error ('{' :: (interior ++ ['}'])) := by
  have elements := elements?_braces interior
  rw [read, Text.enclosed?_of_head (by decide), Numeral.ofText?_eq_none List.mem_cons_self (by decide)]
  simp only
  cases divided : separate interior with
  | some parts =>
    rw [divided, Option.map_some] at elements
    split
    · rename_i found
      rw [elements] at found
      cases found
      rfl
    · rename_i none
      rw [elements] at none
      cases none
  | none =>
    rw [divided, Option.map_none] at elements
    split
    · rename_i found
      rw [elements] at found
      cases found
    · rfl

theorem read_braces_eq_ok_iff {interior : List Char} {v : Value} :
    read ('{' :: (interior ++ ['}'])) = .ok v ↔
      ∃ parts items, separate interior = some parts ∧
        readAll ((parts.map Text.trim).filter (· ≠ [])) = .ok items ∧ v = .array items := by
  rw [read_braces]
  cases separate interior with
  | none => simp
  | some parts => simp only [map_eq_ok_iff, Option.some.injEq, exists_and_left, exists_eq_left']

theorem read_nil : read [] = .error [] := by
  rw [read]
  rfl

end Literal

theorem parseValue_eq_ok_iff {text : String} {v : Value} :
    parseValue text = .ok v ↔ Literal.read (Text.trim text.toList) = .ok v := by
  rw [parseValue, Statement.literal]
  cases Literal.read (Text.trim text.toList) with
  | error fragment => constructor <;> intro impossible <;> cases impossible
  | ok w =>
    constructor
    · intro same
      cases same
      rfl
    · intro same
      cases same
      rfl

end Settings
