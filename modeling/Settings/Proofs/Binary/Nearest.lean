import Mathlib.Algebra.Order.Field.Rat
import Mathlib.Order.Monotone.Basic
import Mathlib.Tactic.FieldSimp
import Mathlib.Tactic.Linarith
import Mathlib.Tactic.Positivity
import Mathlib.Tactic.Ring
import Settings.Binary.Rounding

namespace Settings.Format

theorem fractions_pos (f : Format) : 0 < f.fractions :=
  Nat.two_pow_pos f.fractionBits

theorem scale_pos (f : Format) : 0 < f.scale :=
  Nat.two_pow_pos f.places

/-- A code with a full fraction counts in steps of its exponent, and so does the code after the
last of them. -/
theorem units_mul_add (f : Format) {shift fraction : Nat} (upper : fraction ≤ 2 * f.fractions)
    (lower : shift = 0 ∨ f.fractions ≤ fraction) :
    f.units (shift * f.fractions + fraction) = fraction * 2 ^ shift := by
  have positive := f.fractions_pos
  rcases Nat.lt_or_ge fraction f.fractions with small | full
  · obtain rfl : shift = 0 := by omega
    rw [Nat.zero_mul, Nat.zero_add, units, if_pos small, Nat.pow_zero, Nat.mul_one]
  · obtain ⟨rest, rfl⟩ := Nat.exists_eq_add_of_le full
    have regroup : shift * f.fractions + (f.fractions + rest) =
        rest + (shift + 1) * f.fractions := by ring
    have large : ¬ rest + (shift + 1) * f.fractions < f.fractions := by
      rw [Nat.succ_mul]
      omega
    rw [regroup, units, if_neg large, Nat.add_mul_mod_self_right, Nat.add_mul_div_right _ _ positive]
    rcases Nat.lt_or_ge rest f.fractions with inside | next
    · rw [Nat.mod_eq_of_lt inside, Nat.div_eq_of_lt inside, Nat.zero_add, Nat.add_sub_cancel]
      rfl
    · obtain rfl : rest = f.fractions := by omega
      rw [Nat.mod_self, Nat.div_self positive, Nat.add_comm 1, Nat.add_sub_cancel, Nat.add_zero]
      show f.fractions * 2 ^ (shift + 1) = (f.fractions + f.fractions) * 2 ^ shift
      ring

/-- Every code has a fraction and the steps of an exponent, where only the least exponent has fractions that
are not full. -/
theorem exists_shift_fraction (f : Format) (code : Nat) :
    ∃ shift fraction, code = shift * f.fractions + fraction ∧ fraction < 2 * f.fractions ∧
      (shift = 0 ∨ f.fractions ≤ fraction) := by
  have positive := f.fractions_pos
  have division := Nat.div_add_mod' code f.fractions
  have inside := Nat.mod_lt code positive
  by_cases small : code < f.fractions
  · exact ⟨0, code, by omega, by omega, Or.inl rfl⟩
  · have above : 1 ≤ code / f.fractions := (Nat.one_le_div_iff positive).mpr (by omega)
    obtain ⟨shift, quotient⟩ := Nat.exists_eq_add_of_le' above
    rw [quotient, Nat.succ_mul] at division
    exact ⟨shift, f.fractions + code % f.fractions, by omega, by omega, Or.inr (by omega)⟩

/-- From every code to the next the magnitude grows by one step of the exponent. -/
theorem exists_units (f : Format) (code : Nat) :
    ∃ shift fraction, fraction < 2 * f.fractions ∧ f.units code = fraction * 2 ^ shift ∧
      f.units (code + 1) = (fraction + 1) * 2 ^ shift := by
  obtain ⟨shift, fraction, shape, upper, lower⟩ := f.exists_shift_fraction code
  refine ⟨shift, fraction, upper, ?_, ?_⟩
  · rw [shape, f.units_mul_add upper.le lower]
  · rw [shape, Nat.add_assoc, f.units_mul_add upper (lower.imp_right Nat.le_succ_of_le)]

theorem units_strictMono (f : Format) : StrictMono f.units := by
  refine strictMono_nat_of_lt_succ ?_
  intro code
  obtain ⟨shift, fraction, -, here, next⟩ := f.exists_units code
  rw [here, next]
  exact Nat.mul_lt_mul_of_pos_right (Nat.lt_succ_self fraction) (Nat.two_pow_pos shift)

/-- The magnitude of a code. Codes from infinity's on have the magnitudes that the format would
give them if its exponents went on. -/
def value (f : Format) (code : Nat) : ℚ :=
  f.units code / f.scale

theorem value_strictMono (f : Format) : StrictMono f.value := by
  intro code other less
  have scale : (0 : ℚ) < f.scale := by exact_mod_cast f.scale_pos
  have units : (f.units code : ℚ) < f.units other := by exact_mod_cast f.units_strictMono less
  exact div_lt_div_of_pos_right units scale

/-- Of two numbers the one on the same side of their midpoint is nearer. -/
theorem abs_sub_le_iff_of_lt {a b q : ℚ} (less : a < b) : |a - q| ≤ |b - q| ↔ 2 * q ≤ a + b := by
  rcases abs_cases (a - q) with ⟨atFirst, signFirst⟩ | ⟨atFirst, signFirst⟩ <;>
    rcases abs_cases (b - q) with ⟨atSecond, signSecond⟩ | ⟨atSecond, signSecond⟩ <;>
    rw [atFirst, atSecond] <;> constructor <;> intro <;> linarith

theorem abs_sub_le_iff_of_gt {a b q : ℚ} (less : a < b) : |b - q| ≤ |a - q| ↔ a + b ≤ 2 * q := by
  rcases abs_cases (a - q) with ⟨atFirst, signFirst⟩ | ⟨atFirst, signFirst⟩ <;>
    rcases abs_cases (b - q) with ⟨atSecond, signSecond⟩ | ⟨atSecond, signSecond⟩ <;>
    rw [atFirst, atSecond] <;> constructor <;> intro <;> linarith

theorem abs_sub_eq_iff {a b q : ℚ} (less : a < b) : |a - q| = |b - q| ↔ a + b = 2 * q := by
  rw [le_antisymm_iff, abs_sub_le_iff_of_lt less, abs_sub_le_iff_of_gt less, le_antisymm_iff, and_comm]

/-- No code is nearer to a quotient, and of two that are equally near it is the even one. -/
structure Nearest (f : Format) (q : ℚ) (code : Nat) : Prop where
  closest : ∀ other, |f.value code - q| ≤ |f.value other - q|
  even : ∀ other, other ≠ code → |f.value other - q| = |f.value code - q| → code % 2 = 0

theorem Nearest.not_lt {f : Format} {q : ℚ} {code other : Nat} (nearest : f.Nearest q code)
    (also : f.Nearest q other) : ¬ code < other := by
  intro less
  have same := le_antisymm (also.closest code) (nearest.closest other)
  have evenCode := nearest.even other (Nat.ne_of_gt less) same
  have evenOther := also.even code (Nat.ne_of_lt less) same.symm
  -- Between two even codes there is an odd one, and it would be nearer than both.
  have upper := (abs_sub_le_iff_of_gt (f.value_strictMono less)).mp same.le
  have middle := nearest.closest (code + 1)
  have lower := (abs_sub_le_iff_of_lt (f.value_strictMono (Nat.lt_succ_self code))).mp middle
  have before := f.value_strictMono (show code + 1 < other by omega)
  linarith

theorem Nearest.unique {f : Format} {q : ℚ} {code other : Nat} (nearest : f.Nearest q code)
    (also : f.Nearest q other) : code = other := by
  have lower := nearest.not_lt also
  have upper := also.not_lt nearest
  omega

/-- The nearer of two neighbours around a quotient is nearest among all codes. -/
theorem nearest_of_neighbours {f : Format} {q : ℚ} (low : Nat) {code : Nat} (lower : f.value low ≤ q)
    (upper : q ≤ f.value (low + 1)) (neighbour : code = low ∨ code = low + 1)
    (first : |f.value code - q| ≤ q - f.value low)
    (second : |f.value code - q| ≤ f.value (low + 1) - q)
    (tie : q - f.value low = f.value (low + 1) - q → code % 2 = 0) : f.Nearest q code := by
  have below {other : Nat} (before : other ≤ low) :
      q - f.value low ≤ q - f.value other ∧ q - f.value other ≤ |f.value other - q| := by
    have smaller := f.value_strictMono.monotone before
    rw [abs_sub_comm]
    exact ⟨by linarith, le_abs_self _⟩
  have above {other : Nat} (behind : low + 1 ≤ other) :
      f.value (low + 1) - q ≤ f.value other - q ∧ f.value other - q ≤ |f.value other - q| := by
    have greater := f.value_strictMono.monotone behind
    exact ⟨by linarith, le_abs_self _⟩
  refine ⟨?_, ?_⟩
  · intro other
    rcases Nat.lt_or_ge low other with behind | before
    · obtain ⟨least, most⟩ := above behind
      linarith
    · obtain ⟨least, most⟩ := below before
      linarith
  · intro other apart same
    refine tie ?_
    rcases Nat.lt_or_ge low other with behind | before
    · obtain ⟨least, most⟩ := above behind
      have equal : f.value other = f.value (low + 1) := by linarith
      have place := f.value_strictMono.injective equal
      obtain rfl : code = low := neighbour.resolve_right (fun here => apart (place.trans here.symm))
      rw [abs_sub_comm, abs_of_nonneg (sub_nonneg.mpr lower)] at second
      linarith
    · obtain ⟨least, most⟩ := below before
      have equal : f.value other = f.value low := by linarith
      have place := f.value_strictMono.injective equal
      obtain rfl : code = low + 1 := neighbour.resolve_left (fun here => apart (place.trans here.symm))
      rw [abs_of_nonneg (sub_nonneg.mpr upper)] at first same
      linarith

/-- Rounding a quotient gives one of its neighbours, the even one halfway between them. -/
theorem roundQuotient_cases (num den : Nat) :
    roundQuotient num den = num / den ∧ 2 * (num % den) ≤ den ∨
      roundQuotient num den = num / den + 1 ∧ den ≤ 2 * (num % den) := by
  rw [roundQuotient]
  rcases Nat.lt_trichotomy (2 * (num % den)) den with less | tie | greater
  · rw [if_pos less]
    exact Or.inl ⟨rfl, less.le⟩
  · rw [if_neg tie.not_lt, if_neg tie.not_gt]
    rcases Nat.mod_two_eq_zero_or_one (num / den) with even | odd
    · rw [even]
      exact Or.inl ⟨rfl, tie.le⟩
    · rw [odd]
      exact Or.inr ⟨rfl, tie.ge⟩
  · rw [if_neg greater.not_gt, if_pos greater]
    exact Or.inr ⟨rfl, greater.le⟩

theorem roundQuotient_tie {num den : Nat} (tie : 2 * (num % den) = den) :
    roundQuotient num den % 2 = 0 := by
  rw [roundQuotient, if_neg tie.not_lt, if_neg tie.not_gt]
  omega

/-- The rounded quotient, counted in steps, is at least as near as the steps below and above. -/
theorem abs_roundQuotient_le (num : Nat) {step : Nat} (positive : 0 < step) :
    |(step * roundQuotient num step - num : ℚ)| ≤ num - step * (num / step : ℕ) ∧
      |(step * roundQuotient num step - num : ℚ)| ≤ step * (num / step + 1 : ℕ) - num := by
  have division : (step * (num / step : ℕ) + (num % step : ℕ) : ℚ) = num := by
    exact_mod_cast Nat.div_add_mod num step
  have inside : ((num % step : ℕ) : ℚ) < step := by exact_mod_cast Nat.mod_lt num positive
  have past : (0 : ℚ) ≤ (num % step : ℕ) := Nat.cast_nonneg _
  rcases roundQuotient_cases num step with ⟨rounded, small⟩ | ⟨rounded, large⟩
  · have small : (2 * (num % step : ℕ) : ℚ) ≤ step := by exact_mod_cast small
    rw [rounded, abs_of_nonpos (by linarith)]
    push_cast
    exact ⟨by linarith, by linarith⟩
  · have large : (step : ℚ) ≤ 2 * (num % step : ℕ) := by exact_mod_cast large
    rw [rounded]
    push_cast
    rw [abs_of_nonneg (by linarith)]
    exact ⟨by linarith, by linarith⟩

theorem roundQuotient_even {num step : Nat}
    (tie : (num - step * (num / step : ℕ) : ℚ) = step * (num / step + 1 : ℕ) - num) :
    roundQuotient num step % 2 = 0 := by
  have division : (step * (num / step : ℕ) + (num % step : ℕ) : ℚ) = num := by
    exact_mod_cast Nat.div_add_mod num step
  refine roundQuotient_tie ?_
  have half : (2 * (num % step : ℕ) : ℚ) = step := by
    push_cast at tie
    linarith
  exact_mod_cast half

/-- The step that a quotient is rounded to leaves it a fraction of the format, a full one unless the
quotient is among the least. -/
theorem div_shift_bounds (f : Format) (n : Nat) :
    n / 2 ^ (n.log2 - f.fractionBits) < 2 * f.fractions ∧
      (n.log2 - f.fractionBits = 0 ∨ f.fractions ≤ n / 2 ^ (n.log2 - f.fractionBits)) := by
  have fractions : f.fractions = 2 ^ f.fractionBits := rfl
  have length : n < 2 ^ (n.log2 + 1) := Nat.lt_log2_self
  refine ⟨?_, ?_⟩
  · rw [Nat.div_lt_iff_lt_mul (Nat.two_pow_pos _), fractions, ← Nat.pow_succ', ← Nat.pow_add]
    exact lt_of_lt_of_le length (Nat.pow_le_pow_right (by decide) (by omega))
  · by_cases small : n.log2 ≤ f.fractionBits
    · exact Or.inl (by omega)
    · have nonzero : n ≠ 0 := by
        rintro rfl
        exact small (Nat.zero_le _)
      refine Or.inr ?_
      rw [Nat.le_div_iff_mul_le (Nat.two_pow_pos _), fractions, ← Nat.pow_add,
        Nat.add_sub_cancel' (by omega)]
      exact Nat.log2_self_le nonzero

/-- How far a magnitude is from a quotient. Both are counted in fractions `1 / (den * scale)`, of which a
step of the exponent has `den * 2 ^ shift`. -/
theorem value_sub_div (f : Format) (num : Nat) {shift fraction den : Nat} (positive : 0 < den)
    (upper : fraction ≤ 2 * f.fractions) (lower : shift = 0 ∨ f.fractions ≤ fraction) :
    f.value (shift * f.fractions + fraction) - num / den =
      ((den * 2 ^ shift : ℕ) * fraction - (num * f.scale : ℕ)) / (den * f.scale) := by
  have scale : (0 : ℚ) < f.scale := by exact_mod_cast f.scale_pos
  have denominator : (0 : ℚ) < den := by exact_mod_cast positive
  rw [value, f.units_mul_add upper lower]
  push_cast
  field_simp

/-- A quotient is rounded to the code nearest to it. -/
theorem nearest_nearest {f : Format} (num : Nat) {den : Nat} (positive : 0 < den)
    (even : f.fractions % 2 = 0) : f.Nearest (num / den) (f.nearest num den) := by
  have unit : (0 : ℚ) < den * f.scale := by exact_mod_cast Nat.mul_pos positive f.scale_pos
  obtain ⟨shift, shape⟩ : ∃ shift, (num * f.scale / den).log2 - f.fractionBits = shift := ⟨_, rfl⟩
  obtain ⟨size, full⟩ := f.div_shift_bounds (num * f.scale / den)
  rw [shape, Nat.div_div_eq_div_mul] at size full
  have code : f.nearest num den =
      shift * f.fractions + roundQuotient (num * f.scale) (den * 2 ^ shift) := by
    rw [nearest, shape]
    rfl
  have choice := (roundQuotient_cases (num * f.scale) (den * 2 ^ shift)).imp And.left And.left
  obtain ⟨nearLow, nearNext⟩ := abs_roundQuotient_le (num * f.scale)
    (Nat.mul_pos positive (Nat.two_pow_pos shift))
  have tie := @roundQuotient_even (num * f.scale) (den * 2 ^ shift)
  generalize roundQuotient (num * f.scale) (den * 2 ^ shift) = rounded at code choice nearLow nearNext tie
  generalize num * f.scale / (den * 2 ^ shift) = low at size full choice nearLow nearNext tie
  have gapLow : num / den - f.value (shift * f.fractions + low) =
      ((num * f.scale : ℕ) - (den * 2 ^ shift : ℕ) * low) / (den * f.scale) := by
    rw [← neg_sub, f.value_sub_div num positive size.le full, ← neg_div, neg_sub]
  have gapNext := f.value_sub_div num positive (Nat.succ_le_of_lt size)
    (full.imp_right Nat.le_succ_of_le)
  have gapCode : f.value (shift * f.fractions + rounded) - num / den =
      ((den * 2 ^ shift : ℕ) * rounded - (num * f.scale : ℕ)) / (den * f.scale) := by
    rcases choice with rfl | rfl
    · exact f.value_sub_div num positive size.le full
    · exact gapNext
  rw [code]
  have first : |f.value (shift * f.fractions + rounded) - num / den| ≤
      num / den - f.value (shift * f.fractions + low) := by
    rw [gapCode, gapLow, abs_div, abs_of_pos unit]
    exact div_le_div_of_nonneg_right nearLow unit.le
  have second : |f.value (shift * f.fractions + rounded) - num / den| ≤
      f.value (shift * f.fractions + low + 1) - num / den := by
    rw [gapCode, Nat.add_assoc, gapNext, abs_div, abs_of_pos unit]
    exact div_le_div_of_nonneg_right nearNext unit.le
  have distance := abs_nonneg (f.value (shift * f.fractions + rounded) - num / den)
  refine nearest_of_neighbours (shift * f.fractions + low) (by linarith) (by linarith)
    (choice.imp (congrArg _) (congrArg _)) first second ?_
  intro same
  rw [gapLow, Nat.add_assoc, gapNext, div_left_inj' unit.ne'] at same
  rw [Nat.add_mod, Nat.mul_mod, even, tie same, Nat.mul_zero]

/-- The nearest code is the only one that is nearest. -/
theorem nearest_eq_iff {f : Format} {num den code : Nat} (positive : 0 < den)
    (even : f.fractions % 2 = 0) : f.nearest num den = code ↔ f.Nearest (num / den) code := by
  constructor
  · rintro rfl
    exact nearest_nearest num positive even
  · exact (nearest_nearest num positive even).unique

end Settings.Format
