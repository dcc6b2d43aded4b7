import Settings.Proofs.Binary.Nearest

namespace Settings.Format

variable {f g : Format} {q : ℚ} {code other last : Nat}

/-- What is nearest to a code lies between the midpoints around it, on one of them only if the code is even. -/
theorem nearest_iff_midpoints : f.Nearest q code ↔
    (∀ low, low + 1 = code → f.value low + f.value code ≤ 2 * q ∧
      (f.value low + f.value code = 2 * q → code % 2 = 0)) ∧
    2 * q ≤ f.value code + f.value (code + 1) ∧
      (f.value code + f.value (code + 1) = 2 * q → code % 2 = 0) := by
  have step := f.value_strictMono (Nat.lt_succ_self code)
  constructor
  · intro nearest
    refine ⟨?_, (abs_sub_le_iff_of_lt step).mp (nearest.closest (code + 1)), ?_⟩
    · rintro low rfl
      have less := f.value_strictMono (Nat.lt_succ_self low)
      refine ⟨(abs_sub_le_iff_of_gt less).mp (nearest.closest low), fun tie => ?_⟩
      exact nearest.even low (by omega) ((abs_sub_eq_iff less).mpr tie)
    · intro tie
      exact nearest.even (code + 1) (by omega) ((abs_sub_eq_iff step).mpr tie).symm
  · rintro ⟨lower, upper, tieAbove⟩
    refine ⟨?_, ?_⟩
    · intro other
      rcases Nat.lt_trichotomy other code with below | rfl | above
      · obtain ⟨low, rfl⟩ := Nat.exists_eq_add_of_le' (Nat.one_le_of_lt below)
        have smaller := f.value_strictMono.monotone (Nat.le_of_lt_succ below)
        have bound := (lower low rfl).1
        exact (abs_sub_le_iff_of_gt (f.value_strictMono below)).mpr (by linarith)
      · exact le_rfl
      · have greater := f.value_strictMono.monotone (Nat.succ_le_of_lt above)
        exact (abs_sub_le_iff_of_lt (f.value_strictMono above)).mpr (by linarith)
    · intro other apart same
      -- A tie with any other code is one with the neighbour on its side.
      rcases Nat.lt_or_gt_of_ne apart with below | above
      · obtain ⟨low, rfl⟩ := Nat.exists_eq_add_of_le' (Nat.one_le_of_lt below)
        have smaller := f.value_strictMono.monotone (Nat.le_of_lt_succ below)
        have half := (abs_sub_eq_iff (f.value_strictMono below)).mp same
        obtain ⟨middle, tie⟩ := lower low rfl
        exact tie (by linarith)
      · have greater := f.value_strictMono.monotone (Nat.succ_le_of_lt above)
        have half := (abs_sub_eq_iff (f.value_strictMono above)).mp same.symm
        exact tieAbove (by linarith)

/-- Rounding does not cross a number of the format. -/
theorem Nearest.le_of_value_le (nearest : f.Nearest q code) (below : f.value other ≤ q) : other ≤ code := by
  by_contra less
  have smaller := f.value_strictMono (Nat.not_le.mp less)
  have half := (abs_sub_le_iff_of_lt smaller).mp (nearest.closest other)
  linarith

theorem Nearest.le_of_le_value (nearest : f.Nearest q code) (above : q ≤ f.value other) : code ≤ other := by
  by_contra less
  have greater := f.value_strictMono (Nat.not_le.mp less)
  have half := (abs_sub_le_iff_of_gt greater).mp (nearest.closest other)
  linarith

theorem Nearest.value_lt (nearest : f.Nearest q code) (above : f.value other < f.value code) :
    f.value other < q := by
  by_contra crossed
  have order := f.value_strictMono.monotone (nearest.le_of_le_value (le_of_not_gt crossed))
  linarith

theorem Nearest.lt_value (nearest : f.Nearest q code) (below : f.value code < f.value other) :
    q < f.value other := by
  by_contra crossed
  have order := f.value_strictMono.monotone (nearest.le_of_value_le (le_of_not_gt crossed))
  linarith

/-- Every midpoint of a format is a number of the other one. -/
def Halves (f g : Format) : Prop :=
  ∀ low, ∃ middle, 2 * f.value middle = g.value low + g.value (low + 1)

/-- Rounding twice goes wrong only at a tie of the second rounding: what comes out is nearest to the quotient
itself just if no other number that is as near to the result of the first rounding is nearer to the quotient. -/
theorem Nearest.twice_iff (halves : Halves f g) (first : f.Nearest q code)
    (second : g.Nearest (f.value code) last) :
    g.Nearest q last ↔ ∀ other, |g.value other - f.value code| = |g.value last - f.value code| →
      |g.value last - q| ≤ |g.value other - q| := by
  refine ⟨fun nearest other _ => nearest.closest other, fun best => ?_⟩
  obtain ⟨lower, upper, tieAbove⟩ := nearest_iff_midpoints.mp second
  refine nearest_iff_midpoints.mpr ⟨?_, ?_⟩
  · rintro low rfl
    have less := g.value_strictMono (Nat.lt_succ_self low)
    obtain ⟨below, tieBelow⟩ := lower low rfl
    rcases below.lt_or_eq with inside | tie
    · -- The midpoint is a number of the first format, so the first rounding did not cross it.
      obtain ⟨middle, half⟩ := halves low
      have apart := first.value_lt (show f.value middle < f.value code by linarith)
      exact ⟨by linarith, fun tie => absurd tie (by linarith)⟩
    · have closer := best low ((abs_sub_eq_iff less).mpr tie)
      exact ⟨(abs_sub_le_iff_of_gt less).mp closer, fun _ => tieBelow tie⟩
  · have less := g.value_strictMono (Nat.lt_succ_self last)
    rcases upper.lt_or_eq with inside | tie
    · obtain ⟨middle, half⟩ := halves last
      have apart := first.lt_value (show f.value code < f.value middle by linarith)
      exact ⟨by linarith, fun tie => absurd tie (by linarith)⟩
    · have closer := best (last + 1) ((abs_sub_eq_iff less).mpr tie.symm).symm
      exact ⟨(abs_sub_le_iff_of_lt less).mp closer, fun _ => tieAbove tie.symm⟩

/-- Twice a magnitude is a magnitude. -/
theorem exists_units_double (f : Format) (code : Nat) : ∃ twice, f.units twice = 2 * f.units code := by
  obtain ⟨shift, fraction, rfl, upper, lower⟩ := f.exists_shift_fraction code
  rw [f.units_mul_add upper.le lower]
  rcases Nat.lt_or_ge fraction f.fractions with small | full
  · obtain rfl : shift = 0 := by omega
    refine ⟨0 * f.fractions + 2 * fraction, ?_⟩
    rw [f.units_mul_add (by omega) (Or.inl rfl), Nat.mul_assoc]
  · refine ⟨(shift + 1) * f.fractions + fraction, ?_⟩
    rw [f.units_mul_add upper.le (Or.inr full), Nat.pow_succ]
    ring

/-- A whole fraction at any exponent is a magnitude. -/
theorem exists_units_eq (f : Format) {fraction : Nat} (short : fraction ≤ 2 * f.fractions) (shift : Nat) :
    ∃ code, f.units code = fraction * 2 ^ shift := by
  induction shift with
  | zero => exact ⟨0 * f.fractions + fraction, f.units_mul_add short (Or.inl rfl)⟩
  | succ shift ih =>
    obtain ⟨code, here⟩ := ih
    obtain ⟨twice, double⟩ := f.exists_units_double code
    exact ⟨twice, by rw [double, here, Nat.pow_succ]; ring⟩

theorem cast_scale (f : Format) : (f.scale : ℚ) = 2 ^ f.places := by
  simp only [scale, Nat.pow_eq, Nat.cast_pow, Nat.cast_ofNat]

theorem exists_value_eq (f : Format) {fraction : Nat} (short : fraction ≤ 2 * f.fractions) (shift : Nat) :
    ∃ code, f.value code = fraction * 2 ^ shift := by
  obtain ⟨code, here⟩ := f.exists_units_eq short (shift + f.places)
  refine ⟨code, ?_⟩
  rw [value, here, cast_scale]
  push_cast
  field_simp
  ring

/-- A format with a longer fraction and smaller units has all midpoints of another one. -/
theorem halves_of_finer (longer : 2 * g.fractions ≤ f.fractions) (finer : g.places < f.places) :
    Halves f g := by
  intro low
  obtain ⟨shift, fraction, upper, here, next⟩ := g.exists_units low
  obtain ⟨extra, places⟩ := Nat.exists_eq_add_of_lt finer
  have short : 2 * fraction + 1 ≤ 2 * f.fractions := by omega
  obtain ⟨middle, half⟩ := f.exists_units_eq short (shift + extra)
  refine ⟨middle, ?_⟩
  rw [value, value, value, half, here, next, cast_scale, cast_scale, places]
  push_cast
  field_simp
  ring

end Settings.Format
