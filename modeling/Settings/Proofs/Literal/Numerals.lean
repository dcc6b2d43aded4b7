import Mathlib.Data.List.TakeWhile
import Settings.Literal.Numeral
import Settings.Proofs.Binary.Nearest
import Settings.Proofs.Text.Digits

namespace Settings.Literal

open Text (Digits sign)

namespace Numeral

/-- The characters of a numeral behind its sign. -/
def unsigned (numeral : Numeral) : List Char :=
  numeral.whole ++ numeral.fraction.elim [] ('.' :: ·)

/-- The characters that a numeral is written with. -/
def spelling (numeral : Numeral) : List Char :=
  sign numeral.negative ++ numeral.unsigned

/-- There are digits in front of the point, and behind it if there is one. -/
structure WellFormed (numeral : Numeral) : Prop where
  whole : Digits numeral.whole
  fraction : ∀ fraction, numeral.fraction = some fraction → Digits fraction

/-- Takes apart what stands behind the sign. -/
def ofUnsigned? (negative : Bool) (number : List Char) : Option Numeral :=
  if (number.takeWhile Char.isDigit).isEmpty then none
  else match number.dropWhile Char.isDigit with
    | [] => some ⟨negative, number.takeWhile Char.isDigit, none⟩
    | point :: fraction =>
      if point = '.' ∧ fraction ≠ [] ∧ fraction.all Char.isDigit then
        some ⟨negative, number.takeWhile Char.isDigit, some fraction⟩
      else none

theorem ofText?_sign {negative : Bool} {number : List Char}
    (first : negative = false → number.head? ≠ some '-') :
    ofText? (sign negative ++ number) = ofUnsigned? negative number := by
  cases negative with
  | true => rfl
  | false =>
    have plain : number.head? ≠ some '-' := first rfl
    simp only [sign, Bool.false_eq_true, if_false, List.nil_append, ofText?, plain, decide_false]
    rfl

theorem exists_sign (text : List Char) :
    ∃ negative number, text = sign negative ++ number ∧
      (negative = false → number.head? ≠ some '-') := by
  by_cases minus : text.head? = some '-'
  · obtain ⟨rest, rfl⟩ := List.head?_eq_some_iff.mp minus
    exact ⟨true, rest, rfl, nofun⟩
  · exact ⟨false, text, rfl, fun _ => minus⟩

theorem takeWhile_unsigned {numeral : Numeral} (wellFormed : numeral.WellFormed) :
    numeral.unsigned.takeWhile Char.isDigit = numeral.whole ∧
      numeral.unsigned.dropWhile Char.isDigit = numeral.fraction.elim [] ('.' :: ·) := by
  refine Text.takeWhile_run wellFormed.whole.numeric ?_
  intro c boundary
  cases fraction : numeral.fraction with
  | none =>
    rw [fraction] at boundary
    cases boundary
  | some digits =>
    rw [fraction] at boundary
    cases boundary
    rfl

theorem ofUnsigned?_eq_some_iff {negative : Bool} {number : List Char} {numeral : Numeral} :
    ofUnsigned? negative number = some numeral ↔
      numeral.negative = negative ∧ number = numeral.unsigned ∧ numeral.WellFormed := by
  constructor
  · intro found
    have division := List.takeWhile_append_dropWhile (p := Char.isDigit) (l := number)
    rw [ofUnsigned?] at found
    split at found
    · cases found
    · rename_i started
      have digits : Digits (number.takeWhile Char.isDigit) :=
        ⟨fun empty => started (List.isEmpty_iff.mpr empty), fun c member => List.mem_takeWhile_imp member⟩
      split at found
      · rename_i none
        cases found
        rw [none] at division
        exact ⟨rfl, division.symm, digits, nofun⟩
      · rename_i point fraction shape
        split at found
        · rename_i valid
          obtain ⟨rfl, nonempty, numeric⟩ := valid
          cases found
          rw [shape] at division
          refine ⟨rfl, division.symm, digits, ?_⟩
          rintro _ ⟨⟩
          exact ⟨nonempty, List.all_eq_true.mp numeric⟩
        · cases found
  · rintro ⟨rfl, rfl, wellFormed⟩
    obtain ⟨taken, dropped⟩ := takeWhile_unsigned wellFormed
    rw [ofUnsigned?, taken, dropped, if_neg (mt List.isEmpty_iff.mp wellFormed.whole.nonempty)]
    obtain ⟨negative, whole, fraction⟩ := numeral
    cases fraction with
    | none => rfl
    | some fraction =>
      obtain ⟨nonempty, numeric⟩ := wellFormed.fraction fraction rfl
      exact if_pos ⟨rfl, nonempty, List.all_eq_true.mpr numeric⟩

theorem head?_unsigned {numeral : Numeral} (wellFormed : numeral.WellFormed) :
    numeral.unsigned.head? ≠ some '-' := by
  rw [unsigned, List.head?_append_of_ne_nil _ wellFormed.whole.nonempty]
  exact wellFormed.whole.head?_ne (by decide)

/-- The characters of a numeral are digits, the minus and the point. -/
theorem mem_spelling {numeral : Numeral} (wellFormed : numeral.WellFormed) {c : Char}
    (member : c ∈ numeral.spelling) : c.isDigit = true ∨ c = '-' ∨ c = '.' := by
  obtain ⟨negative, whole, fraction⟩ := numeral
  rcases List.mem_append.mp member with minus | member
  · cases negative with
    | true => exact Or.inr (Or.inl (List.mem_singleton.mp minus))
    | false => cases minus
  · rcases List.mem_append.mp member with digit | member
    · exact Or.inl (wellFormed.whole.numeric c digit)
    · cases fraction with
      | none => cases member
      | some fraction =>
        rcases List.mem_cons.mp member with point | digit
        · exact Or.inr (Or.inr point)
        · exact Or.inl ((wellFormed.fraction fraction rfl).numeric c digit)

/-- A text is taken apart as a numeral just if it is one, and in one way only. -/
theorem ofText?_eq_some_iff {text : List Char} {numeral : Numeral} :
    ofText? text = some numeral ↔ text = numeral.spelling ∧ numeral.WellFormed := by
  constructor
  · intro found
    obtain ⟨negative, number, rfl, first⟩ := exists_sign text
    rw [ofText?_sign first, ofUnsigned?_eq_some_iff] at found
    obtain ⟨rfl, rfl, wellFormed⟩ := found
    exact ⟨rfl, wellFormed⟩
  · rintro ⟨rfl, wellFormed⟩
    rw [spelling, ofText?_sign (fun _ => head?_unsigned wellFormed), ofUnsigned?_eq_some_iff]
    exact ⟨rfl, rfl, wellFormed⟩

/-- The quotient that the digits of a numeral with a point stand for. -/
def quotient (whole fraction : List Char) : ℚ :=
  Nat.ofDigitChars 10 (whole ++ fraction) 0 / 10 ^ fraction.length

/-- A numeral stands for the exact integer, or for the nearest float if it has a point. -/
theorem number?_eq_some_iff {numeral : Numeral} {n : Number} :
    numeral.number? = some n ↔
      (∃ i : Int64, numeral.fraction = none ∧ i.toInt = numeral.toInt ∧ n = .int i) ∨
        ∃ fraction code, numeral.fraction = some fraction ∧
          Format.binary64.Nearest (quotient numeral.whole fraction) code ∧
          n = .float (.ofCode numeral.negative code) := by
  rw [number?]
  cases numeral.fraction with
  | none =>
    simp only [reduceCtorEq, false_and, exists_false, or_false, true_and]
    constructor
    · intro found
      split at found
      · rename_i range
        cases found
        have low : -2 ^ 63 ≤ numeral.toInt := range.1
        have high : numeral.toInt ≤ 2 ^ 63 - 1 := range.2
        exact ⟨_, Int64.toInt_ofInt_of_le low (by omega), rfl⟩
      · cases found
    · rintro ⟨i, same, rfl⟩
      rw [← same, if_pos ⟨i.minValue_le_toInt, i.toInt_le⟩, Int64.ofInt_toInt]
  | some fraction =>
    simp only [reduceCtorEq, false_and, exists_false, false_or, Option.some.injEq, Binary.round]
    have denominator : 0 < Nat.pow 10 fraction.length := Nat.pow_pos (by decide)
    have same : ((Nat.ofDigitChars 10 (numeral.whole ++ fraction) 0 : Nat) : ℚ) /
        (Nat.pow 10 fraction.length : Nat) = quotient numeral.whole fraction := by
      rw [quotient, Nat.pow_eq, Nat.cast_pow]
      rfl
    constructor
    · rintro rfl
      refine ⟨fraction, _, rfl, ?_, rfl⟩
      rw [← same]
      exact Format.nearest_nearest _ denominator rfl
    · rintro ⟨_, code, rfl, nearest, rfl⟩
      rw [← same] at nearest
      rw [(Format.nearest_eq_iff denominator rfl).mpr nearest]

end Numeral

end Settings.Literal
