namespace Settings

/-- A binary floating-point format: a sign, an exponent field and a fraction field. -/
structure Format where
  fractionBits : Nat
  exponentBits : Nat
  deriving DecidableEq, Repr

namespace Format

/-- The format of eight bytes. -/
def binary64 : Format := ⟨52, 11⟩

/-- The format of four bytes. -/
def binary32 : Format := ⟨23, 8⟩

/-- The number of fractions that share an exponent field. -/
def fractions (f : Format) : Nat :=
  Nat.pow 2 f.fractionBits

/-- The number of binary places of the least positive number. Every finite number of the
format is a multiple of the unit `1 / 2 ^ places`. -/
def places (f : Format) : Nat :=
  Nat.pow 2 (f.exponentBits - 1) + f.fractionBits - 2

/-- The unit as a fraction of one: there are `scale` units in the number one. -/
def scale (f : Format) : Nat :=
  Nat.pow 2 f.places

/-- The exponent and fraction fields of infinity, read as one natural number. A finite
number has a smaller code, and its magnitude grows with its code. -/
def infinityCode (f : Format) : Nat :=
  (Nat.pow 2 f.exponentBits - 1) * f.fractions

/-- The magnitude that a code stands for, in units. The exponent fields zero and one have
the same unit, and after them every field doubles it. -/
def units (f : Format) (code : Nat) : Nat :=
  if code < f.fractions then code
  else (f.fractions + code % f.fractions) * Nat.pow 2 (code / f.fractions - 1)

end Format

/-- A number of a binary format. There is one value that is not a number. -/
inductive Binary (f : Format)
  | nan
  | infinite (negative : Bool)
  | finite (negative : Bool) (code : Fin f.infinityCode)
  deriving DecidableEq, Repr

/-- A number of eight bytes. -/
abbrev Double := Binary .binary64

/-- A number of four bytes. -/
abbrev Single := Binary .binary32

namespace Binary

variable {f : Format}

/-- Numeric equality: both zeros are equal, and what is not a number equals nothing. -/
def equal : Binary f → Binary f → Bool
  | finite negative code, finite negative' code' =>
    code = code' && (negative = negative' || code.val = 0)
  | infinite negative, infinite negative' => negative = negative'
  | _, _ => false

/-- The number of a sign and a code. Codes from infinity's on are infinite. -/
def ofCode (negative : Bool) (code : Nat) : Binary f :=
  if h : code < f.infinityCode then finite negative ⟨code, h⟩ else infinite negative

/-- The value of the sign bit. -/
def signBit (f : Format) : Nat :=
  Nat.pow 2 (f.exponentBits + f.fractionBits)

/-- The bits of the number as a natural number, sign first. What is not a number has many
patterns and so none here. -/
def bits? : Binary f → Option Nat
  | nan => none
  | infinite negative => some ((if negative then signBit f else 0) + f.infinityCode)
  | finite negative code => some ((if negative then signBit f else 0) + code.val)

/-- The number that a bit pattern stands for. -/
def ofBits (bits : Nat) : Binary f :=
  let negative := bits / signBit f % 2 = 1
  let code := bits % signBit f
  if f.infinityCode < code then nan else ofCode negative code

end Binary

end Settings
