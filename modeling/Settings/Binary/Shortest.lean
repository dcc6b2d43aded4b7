import Settings.Binary.Rounding

namespace Settings

/-- The decimal number `coefficient * 10 ^ exponent`. -/
structure Decimal where
  coefficient : Nat
  exponent : Int
  deriving DecidableEq, Repr

namespace Format

/-- The magnitude of a code as a whole number of decimal units `1 / 10 ^ places`, which is
exact because `1 / 2 ^ places = 5 ^ places / 10 ^ places`. -/
def decimalUnits (f : Format) (code : Nat) : Nat :=
  f.units code * Nat.pow 5 f.places

/-- Whether a number of decimal units reads back as the code. -/
def readsBack (f : Format) (code : Nat) (decimalUnits : Nat) : Bool :=
  f.nearest decimalUnits (Nat.pow 10 f.places) = code

/-- The better of the two multiples of `10 ^ dropped` around the exact magnitude, if one of
them reads back as the code: the nearer one, and of two that are equally near the one with
the even coefficient. The result is its coefficient. -/
def decimalNear (f : Format) (code : Nat) (dropped : Nat) : Option Nat :=
  let exact := f.decimalUnits code
  let step := Nat.pow 10 dropped
  let low := exact / step
  match f.readsBack code (low * step), f.readsBack code ((low + 1) * step) with
  | true, true => some (roundQuotient exact step)
  | true, false => some low
  | false, true => some (low + 1)
  | false, false => none

/-- The decimal with the fewest digits that reads back as the code, and of several the one
nearest to the exact magnitude. The coefficient of `digits` digits is sought for one length
after the other. The search starts at no digits, where the upper neighbour is a power of
ten, and all digits of the exact magnitude end it. -/
def shortest (f : Format) (code : Nat) : Decimal :=
  let exact := f.decimalUnits code
  let size := (Nat.toDigits 10 exact).length
  let found := (List.range size).findSome? fun digits =>
    (f.decimalNear code (size - digits)).map fun coefficient =>
      Decimal.mk coefficient ((size - digits : Nat) - f.places)
  found.getD ⟨exact, -f.places⟩

end Format

end Settings
