import Settings.Proofs.Binary.Decimals
import Settings.Proofs.Literal.Numerals

namespace Settings.Json

open Literal (Numeral)

/-- What any JSON text says. Integers have any size, and objects keep their fields in order, those with
equal keys too. -/
inductive Datum
  | null
  | bool (b : Bool)
  | int (n : Int)
  | float (x : Double)
  | string (s : String)
  | array (items : List Datum)
  | object (fields : List (String × Datum))
  deriving Repr

/-- The power of ten behind the letter of a number literal: digits, with a plus or minus in front or
without. -/
def exponent? (text : List Char) : Option Int :=
  let digits := if text.head? = some '+' ∨ text.head? = some '-' then text.tail else text
  if digits ≠ [] ∧ digits.all Char.isDigit then
    let size : Int := Nat.ofDigitChars 10 digits 0
    some (if text.head? = some '-' then -size else size)
  else none

/-- The digits of a numeral as a decimal, shifted by a power of ten. -/
def shifted (numeral : Numeral) (exponent : Int) : Decimal :=
  let fraction := numeral.fraction.getD []
  ⟨Nat.ofDigitChars 10 (numeral.whole ++ fraction) 0, exponent - fraction.length⟩

def isMantissa (c : Char) : Bool :=
  c ≠ 'e' && c ≠ 'E'

/-- What a numeral stands for with the text behind it, which is a letter and an exponent if it is not
empty. With a point or an exponent it is the nearest float, else the exact integer. -/
def scaled? (numeral : Numeral) : List Char → Option Datum
  | [] => match numeral.fraction with
    | none => some (.int numeral.toInt)
    | some _ => some (.float ((shifted numeral 0).toDouble numeral.negative))
  | _ :: exponent => (exponent? exponent).map fun power =>
    .float ((shifted numeral power).toDouble numeral.negative)

/-- A number literal. It is a numeral without superfluous zeros in front, behind which an exponent may
stand. -/
def number? (word : List Char) : Option Datum :=
  match Numeral.ofText? (word.takeWhile isMantissa) with
  | none => none
  | some numeral =>
    if numeral.whole.head? = some '0' ∧ numeral.whole ≠ ['0'] then none
    else scaled? numeral (word.dropWhile isMantissa)

/-- What a word outside string literals stands for. -/
def scalar? (word : List Char) : Option Datum :=
  if word = "null".toList then some .null
  else if word = "true".toList then some (.bool true)
  else if word = "false".toList then some (.bool false)
  else number? word

def hexDigit? (c : Char) : Option Nat :=
  if c.isDigit then some (c.toNat - '0'.toNat)
  else if 'a' ≤ c ∧ c ≤ 'f' then some (10 + c.toNat - 'a'.toNat)
  else if 'A' ≤ c ∧ c ≤ 'F' then some (10 + c.toNat - 'A'.toNat)
  else none

/-- The number that four hexadecimal digits stand for, and the text behind them. -/
def codeUnit? : List Char → Option (Nat × List Char)
  | a :: b :: c :: d :: rest =>
    ([a, b, c, d].mapM hexDigit?).map fun digits => (digits.foldl (16 * · + ·) 0, rest)
  | _ => none

/-- The character above FFFF that a high and a low surrogate stand for. -/
def surrogates (high low : Nat) : Char :=
  .ofNat (0x10000 + (high - 0xD800) * 0x400 + (low - 0xDC00))

/-- The character that code units stand for, the first of them without its `\u`, and the text behind
them. A character above FFFF has two code units, and neither of these stands alone. -/
def codeUnits? (text : List Char) : Option (Char × List Char) :=
  match codeUnit? text with
  | none => none
  | some (unit, rest) =>
    if unit < 0xD800 ∨ 0xDFFF < unit then some (.ofNat unit, rest)
    -- A surrogate, which must be a high one with an escaped low one behind it.
    else match rest with
      | '\\' :: 'u' :: text => match codeUnit? text with
        | some (low, rest) =>
          if unit < 0xDC00 ∧ 0xDC00 ≤ low ∧ low ≤ 0xDFFF then some (surrogates unit low, rest)
          else none
        | none => none
      | _ => none

def escaped? : Char → Option Char
  | '"' => some '"'
  | '\\' => some '\\'
  | '/' => some '/'
  | 'b' => some '\x08'
  | 'f' => some '\x0c'
  | 'n' => some '\n'
  | 'r' => some '\r'
  | 't' => some '\t'
  | _ => none

/-- The character that an escape without its backslash stands for, and the text behind it. -/
def escape? : List Char → Option (Char × List Char)
  | [] => none
  | c :: rest => if c = 'u' then codeUnits? rest else (escaped? c).map (·, rest)

/-- The first character inside a string literal, be it escaped, and the text behind it. Control
characters stand there only escaped. -/
def character? : List Char → Option (Char × List Char)
  | [] => none
  | c :: rest =>
    if c = '\\' then escape? rest
    else if c.toNat < 0x20 then none
    else some (c, rest)

theorem length_codeUnit? {text rest : List Char} {unit : Nat}
    (found : codeUnit? text = some (unit, rest)) : rest.length < text.length := by
  rw [codeUnit?.eq_def] at found
  split at found
  · obtain ⟨digits, -, same⟩ := Option.map_eq_some_iff.mp found
    cases same
    simp only [List.length_cons]
    omega
  · cases found

theorem length_codeUnits? {text rest : List Char} {c : Char}
    (found : codeUnits? text = some (c, rest)) : rest.length < text.length := by
  rw [codeUnits?.eq_def] at found
  split at found
  · cases found
  · rename_i unit behind first
    have shorter := length_codeUnit? first
    split at found
    · cases found
      exact shorter
    · split at found
      · split at found
        · rename_i second
          have shortest := length_codeUnit? second
          split at found
          · rw [← (Prod.mk.inj (Option.some.inj found)).2]
            exact shortest.trans (Nat.lt_of_succ_lt (Nat.lt_of_succ_lt shorter))
          · cases found
        · cases found
      · cases found

theorem length_escape? {text rest : List Char} {c : Char}
    (found : escape? text = some (c, rest)) : rest.length < text.length := by
  rw [escape?.eq_def] at found
  split at found
  · cases found
  · split at found
    · exact Nat.lt_succ_of_lt (length_codeUnits? found)
    · obtain ⟨_, -, same⟩ := Option.map_eq_some_iff.mp found
      cases same
      exact Nat.lt_succ_self _

theorem length_character? {text rest : List Char} {c : Char}
    (found : character? text = some (c, rest)) : rest.length < text.length := by
  rw [character?.eq_def] at found
  split at found
  · cases found
  · split at found
    · exact Nat.lt_succ_of_lt (length_escape? found)
    · split at found
      · cases found
      · cases found
        exact Nat.lt_succ_self _

/-- The text of a string literal behind its opening quote, and what stands behind the closing one. -/
def characters? (text : List Char) : Option (List Char × List Char) :=
  if text.head? = some '"' then some ([], text.tail)
  else match _found : character? text with
    | none => none
    | some (c, rest) => (characters? rest).map fun (later, behind) => (c :: later, behind)
termination_by text.length
decreasing_by exact length_character? _found

theorem length_characters? {text inside rest : List Char}
    (found : characters? text = some (inside, rest)) : rest.length ≤ text.length := by
  induction text using characters?.induct generalizing inside with
  | case1 text closed =>
    rw [characters?, if_pos closed] at found
    cases found
    rw [List.length_tail]
    exact Nat.sub_le _ _
  | case2 text opened missing =>
    rw [characters?, if_neg opened] at found
    split at found
    · cases found
    · rename_i first
      rw [missing] at first
      cases first
  | case3 text opened c behind first ih =>
    rw [characters?, if_neg opened] at found
    split at found
    · cases found
    · rename_i again
      rw [first] at again
      cases again
      obtain ⟨⟨later, last⟩, more, same⟩ := Option.map_eq_some_iff.mp found
      cases same
      exact (ih more).trans (length_character? first).le

/-- The pieces of a JSON text. -/
inductive Lexeme
  | openArray
  | closeArray
  | openObject
  | closeObject
  | comma
  | colon
  | string (s : String)
  | scalar (datum : Datum)

def punctuation? : Char → Option Lexeme
  | '[' => some .openArray
  | ']' => some .closeArray
  | '{' => some .openObject
  | '}' => some .closeObject
  | ',' => some .comma
  | ':' => some .colon
  | _ => none

/-- The blanks of JSON are fewer than those of Unicode. -/
def isBlank (c : Char) : Bool :=
  c = ' ' || c = '\t' || c = '\n' || c = '\r'

/-- The characters of numbers and names, which stand together as one word. -/
def isWord (c : Char) : Bool :=
  c.isAlphanum || c = '+' || c = '-' || c = '.'

/-- Divides a whole text into pieces. -/
def lexemes : List Char → Option (List Lexeme)
  | [] => some []
  | c :: rest =>
    if isBlank c then lexemes rest
    else if c = '"' then match _found : characters? rest with
      | none => none
      | some (inside, behind) => (lexemes behind).map (.string (.ofList inside) :: ·)
    else match punctuation? c with
      | some mark => (lexemes rest).map (mark :: ·)
      -- A word goes on as far as it can, so a number is never taken for two.
      | none => match scalar? (c :: rest.takeWhile isWord) with
        | none => none
        | some datum => (lexemes (rest.dropWhile isWord)).map (.scalar datum :: ·)
termination_by text => text.length
decreasing_by
  · exact Nat.lt_succ_self _
  · exact Nat.lt_succ_of_le (length_characters? _found)
  · exact Nat.lt_succ_self _
  · exact Nat.lt_succ_of_le (List.dropWhile_sublist isWord).length_le

/-- An array or object that is open, with what has been read of it. -/
inductive Frame
  | array (items : List Datum)
  | object (fields : List (String × Datum)) (key : String)

/-- Where reading stands, with the arrays and objects that are open, the innermost first. -/
inductive State
  | value (outer : List Frame)
  | firstItem (outer : List Frame)
  | firstKey (outer : List Frame)
  | nextKey (fields : List (String × Datum)) (outer : List Frame)
  | colon (fields : List (String × Datum)) (key : String) (outer : List Frame)
  | behind (datum : Datum) (outer : List Frame)

def start (outer : List Frame) : Lexeme → Option State
  | .openArray => some (.firstItem outer)
  | .openObject => some (.firstKey outer)
  | .string s => some (.behind (.string s) outer)
  | .scalar datum => some (.behind datum outer)
  | _ => none

def step : State → Lexeme → Option State
  | .value outer, lexeme => start outer lexeme
  | .firstItem outer, .closeArray => some (.behind (.array []) outer)
  | .firstItem outer, lexeme => start (.array [] :: outer) lexeme
  -- A key may be missing behind the opening brace only, not behind a comma.
  | .firstKey outer, .closeObject => some (.behind (.object []) outer)
  | .firstKey outer, .string key => some (.colon [] key outer)
  | .nextKey fields outer, .string key => some (.colon fields key outer)
  | .colon fields key outer, .colon => some (.value (.object fields key :: outer))
  | .behind datum (.array items :: outer), .comma => some (.value (.array (items ++ [datum]) :: outer))
  | .behind datum (.array items :: outer), .closeArray =>
    some (.behind (.array (items ++ [datum])) outer)
  | .behind datum (.object fields key :: outer), .comma =>
    some (.nextKey (fields ++ [(key, datum)]) outer)
  | .behind datum (.object fields key :: outer), .closeObject =>
    some (.behind (.object (fields ++ [(key, datum)])) outer)
  | _, _ => none

/-- Reads a text that is one JSON value with nothing but blanks around it. -/
def read (text : String) : Option Datum :=
  match (lexemes text.toList).bind fun pieces => pieces.foldlM step (.value []) with
  | some (.behind datum []) => some datum
  | _ => none

end Settings.Json
