import Settings.Value

namespace Settings.Literal

/-- A written number: a sign, digits, and the digits after the point if there is one. -/
structure Numeral where
  negative : Bool
  whole : List Char
  fraction : Option (List Char)
  deriving DecidableEq, Repr

namespace Numeral

/-- Takes a text apart as a numeral, which is an optional minus, one or more ASCII digits
and optionally a point with one or more digits after it. -/
def ofText? (text : List Char) : Option Numeral :=
  let negative := text.head? = some '-'
  let unsigned := if negative then text.tail else text
  let whole := unsigned.takeWhile Char.isDigit
  if whole.isEmpty then none
  else match unsigned.dropWhile Char.isDigit with
    | [] => some ⟨negative, whole, none⟩
    | point :: fraction =>
      if point = '.' ∧ fraction ≠ [] ∧ fraction.all Char.isDigit then
        some ⟨negative, whole, some fraction⟩
      else none

/-- The integer that the digits before the point stand for. -/
def toInt (numeral : Numeral) : Int :=
  let size : Int := Nat.ofDigitChars 10 numeral.whole 0
  if numeral.negative then -size else size

/-- The number that a numeral stands for. With a point it is the nearest float, which is
infinite where the numeral is too large. Without a point it is an integer, and there is
none outside the range of sixty-four bits. -/
def number? (numeral : Numeral) : Option Number :=
  match numeral.fraction with
  | none =>
    let n := numeral.toInt
    if Int64.minValue.toInt ≤ n ∧ n ≤ Int64.maxValue.toInt then some (.int (Int64.ofInt n))
    else none
  | some fraction =>
    some (.float (.round numeral.negative (Nat.ofDigitChars 10 (numeral.whole ++ fraction) 0)
      (Nat.pow 10 fraction.length)))

end Numeral

end Settings.Literal
