import Settings.Proofs.Binary.Nearest

namespace Settings.Format

/-- A quotient is rounded beyond an odd code from halfway to the next code on, for halfway the next code
is the even one. -/
theorem Nearest.lt_iff {f : Format} {q : ℚ} {low code : Nat} (nearest : f.Nearest q code)
    (odd : low % 2 = 1) : low < code ↔ f.value low + f.value (low + 1) ≤ 2 * q := by
  constructor
  · intro above
    have half := (abs_sub_le_iff_of_gt (f.value_strictMono above)).mp (nearest.closest low)
    have size := f.value_strictMono.monotone (Nat.succ_le_of_lt above)
    linarith
  · intro half
    by_contra below
    have place : code < low + 1 := Nat.lt_succ_of_le (Nat.not_lt.mp below)
    have step := f.value_strictMono place
    have other := (abs_sub_le_iff_of_lt step).mp (nearest.closest (low + 1))
    have size := f.value_strictMono.monotone (Nat.not_lt.mp below)
    -- Of the codes up to `low` only `low` can be as close as the next one, and it is not even.
    obtain rfl : code = low := f.value_strictMono.injective (by linarith)
    have tie : f.value code + f.value (code + 1) = 2 * q := by linarith
    have even := nearest.even (code + 1) (by omega) ((abs_sub_eq_iff step).mpr tie).symm
    omega

theorem value_binary64 {shift fraction : Nat} (upper : fraction ≤ 2 ^ 53)
    (lower : shift = 0 ∨ 2 ^ 52 ≤ fraction) :
    binary64.value (shift * 2 ^ 52 + fraction) = fraction * 2 ^ shift / 2 ^ 1074 := by
  have scale (f : Format) : f.scale = 2 ^ f.places := rfl
  have places : binary64.places = 1074 := rfl
  have units : binary64.units (shift * 2 ^ 52 + fraction) = fraction * 2 ^ shift :=
    units_mul_add binary64 upper lower
  rw [value, units, scale, places]
  simp only [Nat.cast_mul, Nat.cast_pow, Nat.cast_ofNat]

/-- Numbers of eight bytes end below `2 ^ 1024`, where the next one would be. -/
theorem value_infinityCode : binary64.value binary64.infinityCode = 2 ^ 1024 := by
  have code : binary64.infinityCode = 2046 * 2 ^ 52 + 2 ^ 52 := by decide
  rw [code, value_binary64 (by norm_num) (Or.inr le_rfl), div_eq_iff (by positivity), Nat.cast_pow,
    Nat.cast_ofNat, ← pow_add, ← pow_add]

/-- The greatest number of eight bytes. -/
theorem value_greatest : binary64.value (binary64.infinityCode - 1) = 2 ^ 1024 - 2 ^ 971 := by
  have code : binary64.infinityCode - 1 = 2045 * 2 ^ 52 + (2 ^ 53 - 1) := by decide
  rw [code, value_binary64 (by norm_num) (Or.inr (by norm_num)), div_eq_iff (by positivity), sub_mul,
    ← pow_add, ← pow_add]
  have fraction : (((2 ^ 53 - 1 : ℕ) : ℚ)) = 2 ^ 53 - 1 := by norm_num
  rw [fraction, sub_mul, one_mul, ← pow_add]

/-- Halfway between the greatest number and the one that would be next. -/
def limit (f : Format) : ℚ :=
  (f.value (f.infinityCode - 1) + f.value f.infinityCode) / 2

theorem value_lt_limit {f : Format} {code : Nat} (inside : code < f.infinityCode) : f.value code < f.limit := by
  have last := f.value_strictMono.monotone (Nat.le_sub_one_of_lt inside)
  have step := f.value_strictMono (show f.infinityCode - 1 < f.infinityCode by omega)
  unfold limit
  linarith

/-- A quotient overflows to infinity from the limit on, for the greatest number is odd. -/
theorem Nearest.limit_le_iff {f : Format} {q : ℚ} {code : Nat} (nearest : f.Nearest q code)
    (odd : (f.infinityCode - 1) % 2 = 1) : f.infinityCode ≤ code ↔ f.limit ≤ q := by
  have place : f.infinityCode - 1 + 1 = f.infinityCode := by omega
  have half := nearest.lt_iff odd
  rw [place] at half
  unfold limit
  constructor
  · intro infinite
    have above := half.mp (by omega)
    linarith
  · intro large
    have above := half.mpr (by linarith)
    omega

theorem Nearest.lt_infinityCode_iff {f : Format} {q : ℚ} {code : Nat} (nearest : f.Nearest q code)
    (odd : (f.infinityCode - 1) % 2 = 1) : code < f.infinityCode ↔ q < f.limit :=
  lt_iff_lt_of_le_iff_le (nearest.limit_le_iff odd)

theorem limit_binary64 : binary64.limit = 2 ^ 1024 - 2 ^ 970 := by
  have double : (2 : ℚ) ^ 971 = 2 * 2 ^ 970 := pow_succ' 2 970
  rw [limit, value_infinityCode, value_greatest, double]
  generalize (2 : ℚ) ^ 1024 = next
  generalize (2 : ℚ) ^ 970 = step
  ring

theorem limit_binary32 : binary32.limit = 2 ^ 128 - 2 ^ 103 := by
  have next : binary32.infinityCode = 254 * binary32.fractions + binary32.fractions := by decide
  have greatest : binary32.infinityCode - 1 = 253 * binary32.fractions + (2 * binary32.fractions - 1) := by decide
  have fractions : binary32.fractions = 2 ^ 23 := rfl
  have scale : binary32.scale = 2 ^ 149 := rfl
  rw [limit, value, value, greatest, units_mul_add _ (Nat.sub_le _ _) (Or.inr (by decide)), next,
    units_mul_add _ (by omega) (Or.inr le_rfl), fractions, scale]
  norm_num

theorem Nearest.infinityCode_le_iff {q : ℚ} {code : Nat} (nearest : binary64.Nearest q code) :
    binary64.infinityCode ≤ code ↔ 2 ^ 1024 - 2 ^ 970 ≤ q := by
  rw [← limit_binary64]
  exact nearest.limit_le_iff (by decide)

end Settings.Format
