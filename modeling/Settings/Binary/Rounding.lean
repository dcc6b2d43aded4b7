import Settings.Binary.Basic

namespace Settings

/-- The natural number nearest to `num / den`. Halfway between two, the even one. -/
def roundQuotient (num den : Nat) : Nat :=
  let low := num / den
  let past := 2 * (num % den)
  if past < den then low
  else if den < past then low + 1
  else low + low % 2

/-- The code of the number nearest to `num / den`, and of two that are equally near the
one with the even code. The exponent is chosen first: from the quotient in units, its
binary length in excess of a full fraction tells how many units one step of the fraction
takes. Rounding may carry into the next exponent, and past the largest number the code is
infinity's or greater. -/
def Format.nearest (f : Format) (num den : Nat) : Nat :=
  let scaled := num * f.scale
  let shift := (scaled / den).log2 - f.fractionBits
  shift * f.fractions + roundQuotient scaled (den * Nat.pow 2 shift)

namespace Binary

variable {f : Format}

/-- The number nearest to `num / den` or its negation. A quotient that rounds beyond the
largest finite number gives infinity. -/
def round (negative : Bool) (num den : Nat) : Binary f :=
  ofCode negative (f.nearest num den)

/-- The number nearest to an integer. -/
def ofInt (n : Int) : Binary f :=
  round (n < 0) n.natAbs 1

/-- The same number in another format, or the nearest one there. The sign of zero stays. -/
def convert {g : Format} : Binary f → Binary g
  | nan => nan
  | infinite negative => infinite negative
  | finite negative code => round negative (f.units code) f.scale

end Binary

end Settings
