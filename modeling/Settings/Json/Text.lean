import Settings.Binary.Shortest
import Settings.Text
import Settings.Value

namespace Settings.Json

/-- A character inside a string literal. Quotes, backslashes and control characters below
the blank are escaped, the five common ones by a letter. -/
def escape (c : Char) : List Char :=
  if c = '"' then ['\\', '"']
  else if c = '\\' then ['\\', '\\']
  else if c = '\x08' then ['\\', 'b']
  else if c = '\x0c' then ['\\', 'f']
  else if c = '\n' then ['\\', 'n']
  else if c = '\r' then ['\\', 'r']
  else if c = '\t' then ['\\', 't']
  else if c.toNat < 0x20 then
    ['\\', 'u', '0', '0', Nat.digitChar (c.toNat / 16), Nat.digitChar (c.toNat % 16)]
  else [c]

/-- A text as a string literal. -/
def quote (s : String) : List Char :=
  '"' :: s.toList.flatMap escape ++ ['"']

/-- A decimal as a number literal. It is written without exponent if its first digit stands
from five places after the point to sixteen before it, and then it has a point with a digit
on either side. -/
def decimal (d : Decimal) : List Char :=
  let digits := Text.ofNat d.coefficient
  let first : Int := d.exponent + digits.length - 1
  if d.coefficient = 0 then "0.0".toList
  else if first < -5 ∨ 15 < first then
    let fraction := digits.drop 1
    digits.take 1 ++ (if fraction = [] then [] else '.' :: fraction) ++
      'e' :: (if first < 0 then '-' else '+') :: Text.ofNat first.natAbs
  else if first < 0 then
    "0.".toList ++ List.replicate (first.natAbs - 1) '0' ++ digits
  else
    let whole := first.toNat + 1
    if digits.length ≤ whole then
      digits ++ List.replicate (whole - digits.length) '0' ++ ".0".toList
    else digits.take whole ++ '.' :: digits.drop whole

/-- A finite float as a number literal, by its shortest decimal. -/
def finiteFloat (negative : Bool) (code : Nat) : List Char :=
  (if negative then ['-'] else []) ++ decimal (Format.binary64.shortest code)

/-- A number as a literal. There is no literal for what is infinite or not a number, and
`null` takes its place. -/
def number : Number → List Char
  | .int n => Text.ofInt n.toInt
  | .float (.finite negative code) => finiteFloat negative code
  | .float _ => "null".toList

end Settings.Json
