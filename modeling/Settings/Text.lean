namespace Settings.Text

/-- The characters that count as blank: the twenty-five code points with the
Unicode property White_Space. -/
def isBlank (c : Char) : Bool :=
  let n := c.toNat
  (0x09 ≤ n && n ≤ 0x0D) || n == 0x20 || n == 0x85 || n == 0xA0 || n == 0x1680 ||
    (0x2000 ≤ n && n ≤ 0x200A) || n == 0x2028 || n == 0x2029 || n == 0x202F || n == 0x205F ||
    n == 0x3000

/-- The text without the blanks it starts with. -/
def trimStart (text : List Char) : List Char :=
  text.dropWhile isBlank

/-- The text without the blanks it ends with. -/
def trimEnd (text : List Char) : List Char :=
  (text.reverse.dropWhile isBlank).reverse

/-- The text without the blanks at both ends. Blanks between other characters stay. -/
def trim (text : List Char) : List Char :=
  trimEnd (trimStart text)

theorem length_trim_le (text : List Char) : (trim text).length ≤ text.length := by
  have ends := (List.dropWhile_sublist isBlank (l := (trimStart text).reverse)).length_le
  have starts := (List.dropWhile_sublist (l := text) isBlank).length_le
  simp only [List.length_reverse] at ends
  simp only [trim, trimEnd, List.length_reverse]
  exact Nat.le_trans ends starts

/-- The lines of a text, each with the newline that ends it. Only the last line may
lack one, and no line is empty, so an empty text has no lines. -/
def lines : List Char → List (List Char)
  | [] => []
  | c :: rest =>
    if c = '\n' then [c] :: lines rest
    else match lines rest with
      | [] => [[c]]
      | line :: later => (c :: line) :: later

/-- The text without `c` at its end, if it ends with `c`. One occurrence goes. -/
def dropFinal (c : Char) (text : List Char) : List Char :=
  if text.getLast? = some c then text.dropLast else text

/-- A line without its terminator, a newline that a carriage return may precede. A
carriage return at the end of the last line goes with or without a newline. -/
def withoutTerminator (line : List Char) : List Char :=
  dropFinal '\r' (dropFinal '\n' line)

/-- Lines, terminators included, are a division of the text. -/
theorem flatten_lines (text : List Char) : (lines text).flatten = text := by
  induction text with
  | nil => rfl
  | cons c rest ih =>
    rw [lines]
    split
    · simp [ih]
    · split
      · rename_i none
        simpa [none] using ih
      · rename_i line later split
        simpa [split] using ih

/-- The decimal digits of a natural number, without leading zeros. -/
def ofNat (n : Nat) : List Char :=
  Nat.toDigits 10 n

/-- The decimal digits of an integer after a minus if it is negative. -/
def ofInt (n : Int) : List Char :=
  if n < 0 then '-' :: ofNat n.natAbs else ofNat n.natAbs

/-- The text behind a number of bytes, if a character ends with the last of them. -/
def dropBytes? : Nat → List Char → Option (List Char)
  | 0, text => some text
  | _ + 1, [] => none
  | bytes + 1, c :: rest =>
    if c.utf8Size ≤ bytes + 1 then dropBytes? (bytes + 1 - c.utf8Size) rest else none

/-- What stands between the first and the last character of a text, if these are the given
two. One character is not both. -/
def enclosed? (first last : Char) : List Char → Option (List Char)
  | [] => none
  | c :: rest => if c = first ∧ rest.getLast? = some last then some rest.dropLast else none

theorem eq_of_enclosed? {first last : Char} {text interior : List Char}
    (found : enclosed? first last text = some interior) :
    text = first :: (interior ++ [last]) := by
  cases text with
  | nil => cases found
  | cons c rest =>
    rw [enclosed?] at found
    split at found
    · rename_i ends
      obtain ⟨before, rfl⟩ := List.getLast?_eq_some_iff.mp ends.2
      cases found
      rw [ends.1, List.dropLast_concat]
    · cases found

end Settings.Text
