import Settings.Proofs.Binary.Overflow
import Settings.Proofs.Json.Data
import Settings.Proofs.Literal.Parts

namespace Settings.Literal

open Text (Digits sign)

/-- A numeral with a point that is nearer to `2 ^ 1024` than to all floats, or as near as to the
greatest of them. -/
def Overflows (negative : Bool) (text : List Char) : Prop :=
  ∃ whole fraction, Digits whole ∧ Digits fraction ∧ text = sign negative ++ whole ++ '.' :: fraction ∧
    2 ^ 1024 - 2 ^ 970 ≤ Numeral.quotient whole fraction

theorem ofCode_eq_infinite_iff {f : Format} {negative other : Bool} {code : Nat} :
    (Binary.ofCode negative code : Binary f) = .infinite other ↔
      negative = other ∧ f.infinityCode ≤ code := by
  rw [Binary.ofCode]
  split
  · rename_i finite
    refine iff_of_false ?_ fun infinite => absurd finite (Nat.not_lt.mpr infinite.2)
    rintro ⟨⟩
  · rename_i infinite
    rw [Binary.infinite.injEq, and_iff_left (Nat.not_lt.mp infinite)]

/-- The numerals that are too large are the literals of infinite floats. -/
theorem denotes_infinite_iff {text : List Char} {negative : Bool} :
    Denotes text (.float (.infinite negative)) ↔ Overflows negative text := by
  constructor
  · intro denotes
    obtain ⟨minus, whole, fraction, code, digits, fractional, nearest, rfl, value⟩ := denotes.exists_of_float
    obtain ⟨rfl, infinite⟩ := ofCode_eq_infinite_iff.mp value.symm
    exact ⟨whole, fraction, digits, fractional, rfl, nearest.infinityCode_le_iff.mp infinite⟩
  · rintro ⟨whole, fraction, digits, fractional, rfl, large⟩
    have denominator : 0 < 10 ^ fraction.length := Nat.pow_pos (by decide)
    have nearest := Format.nearest_nearest (f := .binary64)
      (Nat.ofDigitChars 10 (whole ++ fraction) 0) denominator rfl
    rw [Nat.cast_pow, Nat.cast_ofNat] at nearest
    have infinite := nearest.infinityCode_le_iff.mpr large
    have value := ofCode_eq_infinite_iff.mpr ⟨Eq.refl negative, infinite⟩
    rw [← value]
    exact .float digits fractional nearest

theorem Overflows.isDigit_of_mem {negative : Bool} {text : List Char} (overflows : Overflows negative text)
    {c : Char} (member : c ∈ text) : c.isDigit = true ∨ c = '-' ∨ c = '.' := by
  obtain ⟨whole, fraction, digits, fractional, rfl, -⟩ := overflows
  have wellFormed : (Numeral.mk negative whole (some fraction)).WellFormed :=
    ⟨digits, by rintro _ ⟨⟩; exact fractional⟩
  refine Numeral.mem_spelling wellFormed ?_
  rw [List.append_assoc] at member
  exact member

theorem quotient_zeros (count : Nat) :
    Numeral.quotient (['1'] ++ List.replicate count '0') (List.replicate 1 '0') = 10 ^ count := by
  have one : Nat.ofDigitChars 10 ['1'] 0 = 1 := rfl
  rw [Numeral.quotient, List.append_assoc, List.replicate_append_replicate, Text.ofDigitChars_append_zeros, one,
    Nat.one_mul, Nat.cast_pow, Nat.cast_ofNat, List.length_replicate, pow_one, pow_succ]
  exact mul_div_cancel_right₀ _ (by norm_num)

/-- A one with three hundred and nine zeros in front of the point. -/
def tooLarge : List Char :=
  ['1'] ++ List.replicate 309 '0' ++ '.' :: List.replicate 1 '0'

theorem overflows_tooLarge : Overflows false tooLarge := by
  have one : Digits ['1'] := ⟨List.cons_ne_nil _ _, List.forall_mem_singleton.mpr rfl⟩
  refine ⟨['1'] ++ List.replicate 309 '0', List.replicate 1 '0',
    one.append fun _ => Text.isDigit_of_mem_zeros, ⟨by decide, fun _ => Text.isDigit_of_mem_zeros⟩, rfl, ?_⟩
  have bound : (2 : ℚ) ^ 1024 ≤ 10 ^ 309 := by
    exact_mod_cast (by decide +kernel : 2 ^ 1024 ≤ 10 ^ 309)
  have step : (0 : ℚ) ≤ 2 ^ 970 := by positivity
  rw [quotient_zeros]
  exact (sub_le_self _ step).trans bound

/-- All floats in a literal are finite, unless the whole is a numeral that is too large. -/
theorem Denotes.finite_or_overflows {text : List Char} {v : Value} (denotes : Denotes text v) :
    v.Finite ∨ ∃ negative, v = .float (.infinite negative) ∧ Overflows negative text := by
  induction denotes using Denotes.elementwise with
  | string characters => exact Or.inl (.string _)
  | number text n denotes =>
    match n with
    | .int n => exact Or.inl (.int n)
    | .float (.finite negative code) => exact Or.inl (.float negative code)
    | .float (.infinite negative) => exact Or.inr ⟨negative, rfl, denotes_infinite_iff.mp denotes⟩
    | .float .nan => exact absurd rfl denotes.ne_nan
  | array segments items _ closed _ all =>
    refine Or.inl (.array ?_)
    intro item member
    obtain ⟨segment, found, denotes, finite | ⟨negative, rfl, -⟩⟩ := exists_segment_of_mem all member
    · exact finite
    · exact absurd denotes (not_denotes_float_of_closed (closed segment found))

end Settings.Literal
