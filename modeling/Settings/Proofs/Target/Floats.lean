import Settings.Proofs.Binary.Rounded
import Settings.Target

namespace Settings

open Format

namespace Number

/-- The rational number that a number is. An infinite float and one that is not a number are none. -/
def toRat? : Number → Option ℚ
  | int n => some n.toInt
  | float x => x.toRat?

variable {n : Number} {q : ℚ}

theorem rounds_toDouble (value : n.toRat? = some q) : n.toDouble.Rounds q := by
  cases n with
  | int i =>
    obtain rfl := Option.some.inj value
    exact Binary.rounds_ofInt (by decide) (by decide) i.toInt
  | float x => exact Binary.rounds_of_toRat (by decide) value

theorem abs_toInt_le (i : Int64) : |(i.toInt : ℚ)| ≤ 2 ^ 63 := by
  have lower : -2 ^ 63 ≤ i.toInt := i.minValue_le_toInt
  have upper : i.toInt ≤ 2 ^ 63 - 1 := i.toInt_le
  have bound : |i.toInt| ≤ 2 ^ 63 := abs_le.mpr ⟨lower, by omega⟩
  exact_mod_cast bound

/-- Below `2 ^ 1024` a magnitude of eight bytes is finite. -/
theorem lt_infinityCode_of_value {code exponent : Nat} (small : binary64.value code ≤ 2 ^ exponent)
    (below : exponent < 1024) : code < binary64.infinityCode := by
  refine binary64.value_strictMono.lt_iff_lt.mp (small.trans_lt ?_)
  rw [value_infinityCode]
  exact pow_lt_pow_right₀ one_lt_two below

/-- An integer is a finite float, and rounding does not take it past `2 ^ 63`. -/
theorem toRat?_toDouble_int (i : Int64) : ∃ r, (int i).toDouble.toRat? = some r ∧ |r| ≤ 2 ^ 63 := by
  have size := abs_toInt_le i
  have rounds : (int i).toDouble.Rounds i.toInt := rounds_toDouble rfl
  obtain ⟨top, power⟩ := binary64.exists_value_eq (show 1 ≤ 2 * binary64.fractions by decide) 63
  rw [Nat.cast_one, one_mul] at power
  have inside := lt_infinityCode_of_value power.le (by decide)
  rw [← power] at size ⊢
  obtain ⟨r, here⟩ := rounds.exists_toRat (size.trans_lt (value_lt_limit inside))
  exact ⟨r, here, rounds.abs_le (by decide) here size⟩

/-- A short integer is a float. -/
theorem exists_toRat_eq_int {i : Int} (short : |(i : ℚ)| ≤ 2 ^ 53) :
    ∃ x : Double, x.toRat? = some (i : ℚ) := by
  rw [← Int.cast_abs, ← Nat.cast_natAbs] at short
  have fraction : i.natAbs ≤ 2 * binary64.fractions := by exact_mod_cast short
  obtain ⟨code, here⟩ := binary64.exists_value_eq fraction 0
  rw [pow_zero, mul_one] at here
  rw [← here] at short
  refine ⟨.ofCode (i < 0) code, Binary.toRat?_ofCode_eq_some_iff.mpr ⟨?_, ?_⟩⟩
  · exact lt_infinityCode_of_value short (by decide)
  · rw [here]
    exact Binary.signed_natAbs i

/-- A float, or an integer that is one, is not changed. -/
theorem toRat?_toDouble (value : n.toRat? = some q) (held : n.isFloat = true ∨ |q| ≤ 2 ^ 53) :
    n.toDouble.toRat? = some q := by
  cases n with
  | int i =>
    obtain rfl := Option.some.inj value
    obtain ⟨x, here⟩ := exists_toRat_eq_int (held.resolve_left Bool.false_ne_true)
    exact (rounds_toDouble value).toRat_eq (by decide) here
  | float x => exact value

end Number

namespace Target

open Binary Number

/-- A number is read as the nearest float of eight bytes, and as the float of four bytes that is nearest to
that one, which is infinite from the limit on. This is the nearest to the number itself for a float and for
a short integer, and for a longer integer unless the float of eight bytes is halfway between two of four
bytes and the number is nearer to the other one. -/
theorem read_rounds {n : Number} {q : ℚ} (value : n.toRat? = some q) :
    binary64.limit = 2 ^ 1024 - 2 ^ 970 ∧ binary32.limit = 2 ^ 128 - 2 ^ 103 ∧
    ∃ (x : Double) (r : ℚ) (y : Single),
      Target.double.read (.number n) = .ok x ∧ x.Rounds q ∧ x.toRat? = some r ∧
      Target.single.read (.number n) = .ok y ∧ y.Rounds r ∧
      (n.isFloat = true ∨ |q| ≤ 2 ^ 53 → y.Rounds q) ∧
      (y.Rounds q ↔ ∀ (z : Single) s t, y.toRat? = some s → z.toRat? = some t →
        |t - r| = |s - r| → |s - q| ≤ |t - q|) := by
  have first := rounds_toDouble value
  obtain ⟨r, middle⟩ : ∃ r, n.toDouble.toRat? = some r := by
    cases n with
    | int i =>
      obtain ⟨r, here, -⟩ := toRat?_toDouble_int i
      exact ⟨r, here⟩
    | float x => exact ⟨q, value⟩
  have second : (n.toDouble.convert : Single).Rounds r := rounds_convert (by decide) (by decide) middle
  have faithful (held : n.isFloat = true ∨ |q| ≤ 2 ^ 53) : (n.toDouble.convert : Single).Rounds q := by
    obtain rfl := Option.some.inj (middle.symm.trans (toRat?_toDouble value held))
    exact second
  refine ⟨limit_binary64, limit_binary32, _, r, _, rfl, first, middle, rfl, second, faithful, ?_⟩
  refine ⟨fun rounds z s t here there _ => rounds.closest here there, fun best => ?_⟩
  cases n with
  | int i =>
    -- An integer is far below infinity, so that there is a tie to look at.
    obtain ⟨rounded, here, small⟩ := toRat?_toDouble_int i
    obtain rfl := Option.some.inj (here.symm.trans middle)
    have below : |rounded| < binary32.limit := by
      rw [limit_binary32]
      exact small.trans_lt (by norm_num)
    obtain ⟨s, last⟩ := second.exists_toRat below
    have halves : Halves binary64 binary32 := halves_of_finer (by decide) (by decide)
    exact rounds_convert_of_ties halves (by decide) (by decide) (by decide) first middle last
      (fun z t there tie => best z s t last there tie)
  | float x => exact faithful (Or.inl rfl)

/-- The greatest integer is nearest to `2 ^ 63` in both formats. -/
theorem read_rounds_greatest :
    (Number.int 9223372036854775807).toRat? = some 9223372036854775807 ∧
    Target.double.read (.int 9223372036854775807) = .ok (.finite false ⟨0x43E0000000000000, by decide⟩) ∧
    (Binary.finite false ⟨0x43E0000000000000, by decide⟩ : Double).Rounds 9223372036854775807 ∧
    Target.single.read (.int 9223372036854775807) = .ok (.finite false ⟨0x5F000000, by decide⟩) ∧
    (Binary.finite false ⟨0x5F000000, by decide⟩ : Single).Rounds 9223372036854775807 := by
  have value : (Number.int 9223372036854775807).toRat? = some 9223372036854775807 := rfl
  have double : (Number.int 9223372036854775807).toDouble =
      .finite false ⟨0x43E0000000000000, by decide⟩ := by
    decide +kernel
  have single : (Number.int 9223372036854775807).toDouble.convert =
      (.finite false ⟨0x5F000000, by decide⟩ : Single) := by
    decide +kernel
  obtain ⟨-, -, x, r, y, readDouble, first, middle, readSingle, -, -, exactly⟩ := read_rounds value
  obtain rfl := double.symm.trans (Except.ok.inj readDouble)
  obtain rfl := single.symm.trans (Except.ok.inj readSingle)
  refine ⟨value, readDouble, first, readSingle, exactly.mpr fun z s t here there tie => ?_⟩
  -- Both formats have this power of two, so that there is no tie.
  have same : binary32.value 0x5F000000 = binary64.value 0x43E0000000000000 := by decide +kernel
  obtain rfl := Option.some.inj here
  obtain rfl := Option.some.inj middle
  change |t - binary64.value 0x43E0000000000000| =
    |binary32.value 0x5F000000 - binary64.value 0x43E0000000000000| at tie
  rw [same, sub_self, abs_zero, abs_eq_zero, sub_eq_zero, ← same] at tie
  exact le_of_eq (congrArg (fun r => |r - _|) tie.symm)

/-- The integer `2 ^ 53 + 2 ^ 29 + 1` becomes `2 ^ 53`, although the next number of four bytes is nearer. As
a float of eight bytes it loses its last bit, and then it is halfway between the two. -/
theorem not_rounds_single :
    Target.single.read (.int 9007199791611905) = .ok (.finite false ⟨0x5A000000, by decide⟩) ∧
    (Binary.finite false ⟨0x5A000001, by decide⟩ : Single).Rounds 9007199791611905 ∧
    ¬ (Binary.finite false ⟨0x5A000000, by decide⟩ : Single).Rounds 9007199791611905 := by
  have odd : (binary32.infinityCode - 1) % 2 = 1 := by decide
  have nearest : binary32.Nearest (9007199791611905 : ℕ) (binary32.nearest 9007199791611905 1) := by
    have quotient := nearest_nearest (f := .binary32) 9007199791611905 one_pos rfl
    rwa [Nat.cast_one, div_one] at quotient
  have code : binary32.nearest 9007199791611905 1 = 0x5A000001 := by decide +kernel
  rw [code, Nat.cast_ofNat] at nearest
  have single : (Number.int 9007199791611905).toDouble.convert =
      (.finite false ⟨0x5A000000, by decide⟩ : Single) := by
    decide +kernel
  refine ⟨congrArg Except.ok single, (rounds_finite_iff odd).mpr ⟨by decide, nearest⟩, fun rounds => ?_⟩
  have other := ((rounds_finite_iff odd).mp rounds).2
  exact absurd (nearest.unique other) (by decide)

end Target

end Settings
