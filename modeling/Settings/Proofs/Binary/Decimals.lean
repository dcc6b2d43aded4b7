import Settings.Binary.Shortest
import Settings.Proofs.Binary.Nearest

namespace Settings

namespace Decimal

/-- The rational number that a decimal stands for. -/
def toRat (d : Decimal) : ℚ :=
  d.coefficient * 10 ^ d.exponent

/-- A decimal is the quotient `num / den` of natural numbers. -/
def num (d : Decimal) : Nat :=
  d.coefficient * 10 ^ d.exponent.toNat

def den (d : Decimal) : Nat :=
  10 ^ (-d.exponent).toNat

/-- The float nearest to a decimal or to its negation. -/
def toDouble (negative : Bool) (d : Decimal) : Double :=
  .round negative d.num d.den

theorem den_pos (d : Decimal) : 0 < d.den :=
  Nat.pow_pos (by decide)

theorem num_div_den (d : Decimal) : (d.num / d.den : ℚ) = d.toRat := by
  obtain ⟨coefficient, exponent⟩ := d
  rw [num, den, toRat]
  rcases Int.le_total 0 exponent with positive | negative
  · obtain ⟨size, rfl⟩ := Int.eq_ofNat_of_zero_le positive
    have none : (-(size : Int)).toNat = 0 := by omega
    rw [Int.toNat_natCast, none, zpow_natCast]
    push_cast
    rw [div_one]
  · obtain ⟨size, rfl⟩ := Int.exists_eq_neg_ofNat negative
    have none : (-(size : Int)).toNat = 0 := by omega
    rw [none, neg_neg, Int.toNat_natCast, zpow_neg, zpow_natCast]
    push_cast
    rw [mul_one, div_eq_mul_inv]

/-- The float of a decimal is the nearest one, so it depends on the rational number only. -/
theorem toDouble_eq_ofCode {negative : Bool} {d : Decimal} {code : Nat}
    (nearest : Format.binary64.Nearest d.toRat code) : d.toDouble negative = .ofCode negative code := by
  rw [← num_div_den] at nearest
  rw [toDouble, Binary.round, (Format.nearest_eq_iff d.den_pos rfl).mpr nearest]

end Decimal

namespace Format

variable {f : Format}

theorem nearest_value (f : Format) (code : Nat) : f.Nearest (f.value code) code := by
  refine ⟨?_, ?_⟩
  · intro other
    rw [sub_self, abs_zero]
    exact abs_nonneg _
  · intro other apart same
    rw [sub_self, abs_zero, abs_eq_zero, sub_eq_zero] at same
    exact absurd (f.value_strictMono.injective same) apart

theorem toRat_decimalUnits (f : Format) (code : Nat) :
    Decimal.toRat ⟨f.decimalUnits code, -f.places⟩ = f.value code := by
  have split : (10 : ℚ) ^ f.places = 2 ^ f.places * 5 ^ f.places := by
    rw [← mul_pow]
    norm_num
  rw [Decimal.toRat, value, decimalUnits, scale, zpow_neg, zpow_natCast, split]
  simp only [Nat.pow_eq]
  push_cast
  field_simp

/-- A number of decimal units that reads back as a code is a decimal to which the code is nearest,
whatever zeros are split off it. -/
theorem nearest_of_readsBack (even : f.fractions % 2 = 0) {code coefficient dropped : Nat}
    (back : f.readsBack code (coefficient * Nat.pow 10 dropped) = true) :
    f.Nearest (Decimal.toRat ⟨coefficient, dropped - f.places⟩) code := by
  have denominator : 0 < Nat.pow 10 f.places := Nat.pow_pos (by decide)
  have nearest := (nearest_eq_iff denominator even).mp (of_decide_eq_true back)
  have same : ((coefficient * Nat.pow 10 dropped : Nat) / (Nat.pow 10 f.places : Nat) : ℚ) =
      Decimal.toRat ⟨coefficient, dropped - f.places⟩ := by
    rw [Decimal.toRat, zpow_sub₀ (by norm_num), zpow_natCast, zpow_natCast]
    simp only [Nat.pow_eq]
    push_cast
    ring
  rwa [same] at nearest

theorem readsBack_of_decimalNear {code dropped coefficient : Nat}
    (found : f.decimalNear code dropped = some coefficient) :
    f.readsBack code (coefficient * Nat.pow 10 dropped) = true := by
  rw [decimalNear] at found
  split at found
  · rename_i low high
    cases found
    rcases roundQuotient_cases (f.decimalUnits code) (Nat.pow 10 dropped) with
      ⟨down, -⟩ | ⟨up, -⟩
    · rw [down, low]
    · rw [up, high]
  · rename_i low high
    cases found
    exact low
  · rename_i low high
    cases found
    exact high
  · cases found

/-- A code is nearest to its shortest decimal. -/
theorem nearest_shortest (even : f.fractions % 2 = 0) (code : Nat) :
    f.Nearest (f.shortest code).toRat code := by
  rw [shortest]
  generalize search : List.findSome? _ _ = found
  cases found with
  | none =>
    show f.Nearest (Decimal.toRat ⟨f.decimalUnits code, -f.places⟩) code
    rw [toRat_decimalUnits]
    exact f.nearest_value code
  | some d =>
    obtain ⟨digits, -, near⟩ := List.exists_of_findSome?_eq_some search
    obtain ⟨coefficient, kept, rfl⟩ := Option.map_eq_some_iff.mp near
    exact nearest_of_readsBack even (readsBack_of_decimalNear kept)

end Format

namespace Decimal

/-- What has the value of the shortest decimal of a finite float reads back as the float. -/
theorem toDouble_of_shortest {negative : Bool} {code : Fin Format.binary64.infinityCode} {d : Decimal}
    (same : d.toRat = (Format.binary64.shortest code).toRat) :
    d.toDouble negative = .finite negative code := by
  have nearest := Format.nearest_shortest (f := .binary64) rfl code
  rw [← same] at nearest
  rw [toDouble_eq_ofCode nearest, Binary.ofCode, dif_pos code.isLt]

end Decimal

end Settings
