import Settings.Proofs.Binary.Decimals
import Settings.Proofs.Binary.Midpoints
import Settings.Proofs.Binary.Overflow

namespace Settings

namespace Format

theorem value_nonneg (f : Format) (code : Nat) : 0 ≤ f.value code :=
  div_nonneg (Nat.cast_nonneg _) (Nat.cast_nonneg _)

theorem value_zero (f : Format) : f.value 0 = 0 := by
  have none : f.units 0 = 0 := if_pos f.fractions_pos
  rw [value, none, Nat.cast_zero, zero_div]

variable {f : Format} {q : ℚ} (odd : (f.infinityCode - 1) % 2 = 1)

include odd

/-- Below the limit the greatest number is nearer than all that would be behind it. -/
theorem abs_greatest_sub_lt {other : Nat} (below : q < f.limit) (behind : f.infinityCode ≤ other) :
    |f.value (f.infinityCode - 1) - q| < |f.value other - q| := by
  have less := f.value_strictMono (show f.infinityCode - 1 < other by omega)
  have greater := f.value_strictMono.monotone behind
  refine not_le.mp (fun nearer => ?_)
  have half := (abs_sub_le_iff_of_gt less).mp nearer
  unfold limit at below
  linarith

/-- Below the limit it is enough to compare with finite numbers. -/
theorem nearest_of_finite {code : Nat} (below : q < f.limit)
    (closest : ∀ other < f.infinityCode, |f.value code - q| ≤ |f.value other - q|)
    (even : ∀ other < f.infinityCode, other ≠ code →
      |f.value other - q| = |f.value code - q| → code % 2 = 0) : f.Nearest q code := by
  have beyond {other : Nat} (behind : f.infinityCode ≤ other) : |f.value code - q| < |f.value other - q| :=
    (closest (f.infinityCode - 1) (by omega)).trans_lt (abs_greatest_sub_lt odd below behind)
  refine ⟨fun other => ?_, fun other apart tie => ?_⟩
  · rcases Nat.lt_or_ge other f.infinityCode with before | behind
    · exact closest other before
    · exact (beyond behind).le
  · rcases Nat.lt_or_ge other f.infinityCode with before | behind
    · exact even other before apart tie
    · exact absurd tie (beyond behind).ne'

end Format

namespace Binary

/-- A rational number, or its negation. -/
def signed (negative : Bool) (q : ℚ) : ℚ :=
  if negative then -q else q

variable {f : Format} {q : ℚ} {negative : Bool} {code : Fin f.infinityCode}

/-- The rational number that a finite number is. -/
def toRat? : Binary f → Option ℚ
  | finite negative code => some (signed negative (f.value code))
  | _ => none

/-- A number of the format is what a rational number rounds to: no finite number is nearer to it, and of two
that are equally near it is the even one. From the limit on it is infinite. It has the sign of the rational
number, which zero may have either way. -/
def Rounds (q : ℚ) : Binary f → Prop
  | nan => False
  | infinite negative => f.limit ≤ |q| ∧ 0 ≤ signed negative q
  | finite negative code => |q| < f.limit ∧ 0 ≤ signed negative q ∧
      ∀ other r, toRat? (f := f) other = some r →
        |signed negative (f.value code) - q| ≤ |r - q| ∧
        (r ≠ signed negative (f.value code) →
          |r - q| = |signed negative (f.value code) - q| → code.val % 2 = 0)

theorem abs_signed (negative : Bool) (q : ℚ) : |signed negative q| = |q| := by
  cases negative
  · rfl
  · exact abs_neg q

theorem abs_eq_signed (side : 0 ≤ signed negative q) : |q| = signed negative q := by
  rw [← abs_signed negative, abs_of_nonneg side]

theorem signed_involutive (negative : Bool) : Function.Involutive (signed negative) := by
  cases negative
  · exact fun _ => rfl
  · exact neg_involutive

theorem signed_zero (negative : Bool) : signed negative 0 = 0 := by
  unfold signed
  rw [neg_zero, ite_self]

theorem signed_sub (negative : Bool) (a b : ℚ) :
    signed negative (a - b) = signed negative a - signed negative b := by
  cases negative
  · rfl
  · exact neg_sub' a b

theorem signed_natAbs (n : Int) : signed (n < 0) n.natAbs = n := by
  unfold signed
  rw [Nat.cast_natAbs]
  by_cases negative : n < 0
  · rw [if_pos (decide_eq_true negative), abs_of_neg negative, Int.cast_neg, neg_neg]
  · rw [if_neg (mt of_decide_eq_true negative), abs_of_nonneg (not_lt.mp negative)]

/-- Distances are the same on both sides of zero. -/
theorem abs_signed_sub (negative : Bool) (a q : ℚ) : |signed negative a - q| = |a - signed negative q| := by
  rw [← abs_signed negative (a - signed negative q), signed_sub, signed_involutive]

/-- The distance to a number on the other side of zero leads across zero. -/
theorem abs_signed_not_sub {a : ℚ} (positive : 0 ≤ a) (side : 0 ≤ signed negative q) :
    |signed (!negative) a - q| = a + signed negative q := by
  rw [← abs_of_nonneg (add_nonneg positive side)]
  cases negative
  · rw [← abs_neg]
    exact congrArg abs (by simp only [signed, Bool.not_false, if_true, Bool.false_eq_true, if_false]; ring)
  · exact congrArg abs (by simp only [signed, Bool.not_true, if_true, Bool.false_eq_true, if_false]; ring)

/-- No number is nearer than the one of the same magnitude on the right side of zero. -/
theorem abs_sub_le_abs_signed_sub {a : ℚ} (positive : 0 ≤ a) (side : 0 ≤ signed negative q)
    (other : Bool) : |a - signed negative q| ≤ |signed other a - q| := by
  by_cases same : other = negative
  · rw [same, abs_signed_sub]
  · rw [Bool.eq_not_of_ne same, abs_signed_not_sub positive side]
    exact abs_le.mpr ⟨by linarith, by linarith⟩

theorem toRat?_eq_some_iff {x : Binary f} : x.toRat? = some q ↔
    ∃ negative code, x = finite negative code ∧ signed negative (f.value code) = q := by
  cases x <;> simp [toRat?]

theorem toRat?_ofCode_eq_some_iff {code : Nat} : (ofCode negative code : Binary f).toRat? = some q ↔
    code < f.infinityCode ∧ signed negative (f.value code) = q := by
  unfold ofCode
  split
  next inside => exact Option.some_inj.trans ⟨fun same => ⟨inside, same⟩, And.right⟩
  next outside => exact ⟨nofun, fun finite => absurd finite.1 outside⟩

/-- Below the limit a rational number rounds to a finite one. -/
theorem Rounds.exists_toRat {x : Binary f} (rounds : x.Rounds q) (below : |q| < f.limit) :
    ∃ r, x.toRat? = some r := by
  cases x with
  | nan => exact rounds.elim
  | infinite => exact absurd rounds.1 below.not_ge
  | finite => exact ⟨_, rfl⟩

theorem Rounds.closest {x z : Binary f} {r t : ℚ} (rounds : x.Rounds q) (here : x.toRat? = some r)
    (there : z.toRat? = some t) : |r - q| ≤ |t - q| := by
  obtain ⟨negative, code, rfl, rfl⟩ := toRat?_eq_some_iff.mp here
  exact (rounds.2.2 z t there).1

section

variable (odd : (f.infinityCode - 1) % 2 = 1)

include odd

/-- A rational number rounds to a finite one of its sign if its magnitude is nearest to the code. -/
theorem rounds_finite_iff :
    (finite negative code).Rounds q ↔ 0 ≤ signed negative q ∧ f.Nearest (signed negative q) code := by
  constructor
  · rintro ⟨small, side, best⟩
    rw [abs_eq_signed side] at small
    have inside (other : Fin f.infinityCode) := best (finite negative other) _ rfl
    simp only [abs_signed_sub] at inside
    refine ⟨side, Format.nearest_of_finite odd small ?_ ?_⟩
    · intro other before
      exact (inside ⟨other, before⟩).1
    · intro other before apart tie
      refine (inside ⟨other, before⟩).2 ?_ tie
      exact (signed_involutive negative).injective.ne (f.value_strictMono.injective.ne apart)
  · rintro ⟨side, nearest⟩
    refine ⟨?_, side, ?_⟩
    · rw [abs_eq_signed side]
      exact (nearest.lt_infinityCode_iff odd).mp code.isLt
    · rintro (_ | _ | ⟨sign, other⟩) r ⟨⟩
      have closest := nearest.closest other
      have reach := abs_sub_le_abs_signed_sub (f.value_nonneg other) side sign
      rw [abs_signed_sub]
      refine ⟨closest.trans reach, fun apart tie => ?_⟩
      by_cases same : other = code
      · -- The other number is the negation, and both are equally near only if both are zero.
        subst same
        have opposite : sign = !negative := Bool.eq_not_of_ne (fun agree => apart (agree ▸ rfl))
        rw [opposite, abs_signed_not_sub (f.value_nonneg other) side] at tie
        have zero := nearest.closest 0
        rw [f.value_zero, zero_sub, abs_neg, abs_of_nonneg side] at zero
        have none : f.value other = 0 := le_antisymm (by linarith) (f.value_nonneg other)
        rw [none, signed_zero, signed_zero] at apart
        exact absurd rfl apart
      · exact nearest.even other (Fin.val_injective.ne same) (le_antisymm (reach.trans tie.le) closest)

/-- The code nearest to the magnitude makes the number that is rounded to. -/
theorem rounds_ofCode {code : Nat} (side : 0 ≤ signed negative q) (nearest : f.Nearest (signed negative q) code) :
    (ofCode negative code : Binary f).Rounds q := by
  unfold ofCode
  split
  · exact (rounds_finite_iff odd).mpr ⟨side, nearest⟩
  · refine ⟨?_, side⟩
    rw [abs_eq_signed side]
    exact (nearest.limit_le_iff odd).mp (by omega)

/-- A finite number is what itself rounds to. -/
theorem rounds_of_toRat {x : Binary f} (value : x.toRat? = some q) : x.Rounds q := by
  obtain ⟨negative, code, rfl, rfl⟩ := toRat?_eq_some_iff.mp value
  rw [rounds_finite_iff odd, signed_involutive]
  exact ⟨f.value_nonneg code, f.nearest_value code⟩

theorem Rounds.abs_le {x : Binary f} {r : ℚ} {top : Nat} (rounds : x.Rounds q)
    (here : x.toRat? = some r) (bound : |q| ≤ f.value top) : |r| ≤ f.value top := by
  obtain ⟨negative, code, rfl, rfl⟩ := toRat?_eq_some_iff.mp here
  obtain ⟨side, nearest⟩ := (rounds_finite_iff odd).mp rounds
  rw [abs_eq_signed side] at bound
  rw [abs_signed, abs_of_nonneg (f.value_nonneg code)]
  exact f.value_strictMono.monotone (nearest.le_of_le_value bound)

/-- What a format can hold is not changed by rounding. -/
theorem Rounds.toRat_eq {x z : Binary f} (rounds : x.Rounds q) (held : z.toRat? = some q) :
    x.toRat? = some q := by
  have below : |q| < f.limit := by
    obtain ⟨negative, code, rfl, rfl⟩ := toRat?_eq_some_iff.mp held
    exact (rounds_of_toRat odd held).1
  obtain ⟨r, here⟩ := rounds.exists_toRat below
  have distance := rounds.closest here held
  rw [sub_self, abs_zero, abs_nonpos_iff, sub_eq_zero] at distance
  rw [here, distance]

/-- The sign and the quotient of a rational number are rounded to the number nearest to it. -/
theorem rounds_round {num den : Nat} (even : f.fractions % 2 = 0) (positive : 0 < den)
    (quotient : signed negative q = num / den) : (round negative num den : Binary f).Rounds q := by
  have nearest := f.nearest_nearest num positive even
  rw [← quotient] at nearest
  refine rounds_ofCode odd ?_ nearest
  rw [quotient]
  exact div_nonneg (Nat.cast_nonneg _) (Nat.cast_nonneg _)

theorem rounds_ofInt (even : f.fractions % 2 = 0) (n : Int) : (ofInt n : Binary f).Rounds n := by
  refine rounds_round odd even one_pos ?_
  rw [Nat.cast_one, div_one]
  exact (signed_involutive _).eq_iff.mpr (signed_natAbs n).symm

end

/-- A finite number of one format is rounded to another one. -/
theorem rounds_convert {g : Format} (odd : (g.infinityCode - 1) % 2 = 1) (even : g.fractions % 2 = 0)
    {x : Binary f} (value : x.toRat? = some q) : (x.convert : Binary g).Rounds q := by
  obtain ⟨negative, code, rfl, rfl⟩ := toRat?_eq_some_iff.mp value
  exact rounds_round odd even f.scale_pos (signed_involutive negative _)

/-- Rounding to a format in between and from there to another one gives what rounding at once gives, if the
second rounding does not choose the farther of two numbers that it finds equally near. -/
theorem rounds_convert_of_ties {g : Format} (halves : f.Halves g) (oddFirst : (f.infinityCode - 1) % 2 = 1)
    (odd : (g.infinityCode - 1) % 2 = 1) (even : g.fractions % 2 = 0) {x : Binary f} {r s : ℚ}
    (first : x.Rounds q) (middle : x.toRat? = some r) (last : (x.convert : Binary g).toRat? = some s)
    (best : ∀ (z : Binary g) t, z.toRat? = some t → |t - r| = |s - r| → |s - q| ≤ |t - q|) :
    (x.convert : Binary g).Rounds q := by
  obtain ⟨negative, code, rfl, rfl⟩ := toRat?_eq_some_iff.mp middle
  obtain ⟨side, nearest⟩ := (rounds_finite_iff oddFirst).mp first
  have second : g.Nearest (f.value code) (g.nearest (f.units code) f.scale) :=
    Format.nearest_nearest (f.units code) f.scale_pos even
  obtain ⟨inside, rfl⟩ := toRat?_ofCode_eq_some_iff.mp last
  refine rounds_ofCode odd side ((nearest.twice_iff halves second).mpr fun other tie => ?_)
  have before : other < g.infinityCode := by
    by_contra behind
    have below := (second.lt_infinityCode_iff odd).mp inside
    have beyond := Format.abs_greatest_sub_lt odd below (not_lt.mp behind)
    have closest := second.closest (g.infinityCode - 1)
    linarith
  have closer := best (ofCode negative other) _ (toRat?_ofCode_eq_some_iff.mpr ⟨before, rfl⟩)
  simp only [abs_signed_sub, signed_involutive negative (f.value code)] at closer
  exact closer tie

end Binary

end Settings
