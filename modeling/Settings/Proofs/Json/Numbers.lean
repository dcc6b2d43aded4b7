import Settings.Json.Text
import Settings.Proofs.Json.Data

namespace Settings.Json

open Literal (Numeral)
open Text (Digits sign)

/-- A numeral without superfluous zeros in front. -/
structure Minimal (numeral : Numeral) : Prop extends numeral.WellFormed where
  leading : numeral.whole.head? = some '0' → numeral.whole = ['0']

variable {numeral : Numeral}

theorem isMantissa_of_isDigit {c : Char} (digit : c.isDigit = true) : isMantissa c = true := by
  have small : c ≠ 'e' := by
    rintro rfl
    cases digit
  have capital : c ≠ 'E' := by
    rintro rfl
    cases digit
  rw [isMantissa, decide_eq_true small, decide_eq_true capital]
  rfl

theorem isWord_of_isDigit {c : Char} (digit : c.isDigit = true) : isWord c = true := by
  rw [isWord, Char.isAlphanum, digit, Bool.or_true]
  rfl

theorem isMantissa_of_mem {c : Char} (wellFormed : numeral.WellFormed)
    (member : c ∈ numeral.spelling) : isMantissa c = true := by
  rcases Numeral.mem_spelling wellFormed member with digit | rfl | rfl
  · exact isMantissa_of_isDigit digit
  · rfl
  · rfl

theorem isWord_of_mem {c : Char} (wellFormed : numeral.WellFormed)
    (member : c ∈ numeral.spelling) : isWord c = true := by
  rcases Numeral.mem_spelling wellFormed member with digit | rfl | rfl
  · exact isWord_of_isDigit digit
  · rfl
  · rfl

theorem number?_append (minimal : Minimal numeral) {behind : List Char}
    (boundary : ∀ c, behind.head? = some c → isMantissa c = false) :
    number? (numeral.spelling ++ behind) = scaled? numeral behind := by
  obtain ⟨taken, dropped⟩ := Text.takeWhile_run
    (fun _ member => isMantissa_of_mem minimal.toWellFormed member) boundary
  rw [number?, taken, dropped, Numeral.ofText?_eq_some_iff.mpr ⟨rfl, minimal.toWellFormed⟩]
  exact if_neg fun zeros => zeros.2 (minimal.leading zeros.1)

theorem exponent?_sign (power : Int) :
    exponent? ((if power < 0 then '-' else '+') :: Text.ofNat power.natAbs) = some power := by
  have digits := Text.digits_ofNat power.natAbs
  have valid : Text.ofNat power.natAbs ≠ [] ∧ (Text.ofNat power.natAbs).all Char.isDigit = true :=
    ⟨digits.nonempty, List.all_eq_true.mpr digits.numeric⟩
  by_cases negative : power < 0
  · rw [if_pos negative, exponent?]
    simp only [List.head?_cons, List.tail_cons, or_true, if_true, if_pos valid,
      Text.ofDigitChars_ofNat]
    exact congrArg some (by omega)
  · have plus : ¬ some '+' = some '-' := by decide
    rw [if_neg negative, exponent?]
    simp only [List.head?_cons, List.tail_cons, true_or, if_true, if_pos valid,
      Text.ofDigitChars_ofNat, if_neg plus]
    exact congrArg some (by omega)

/-- A word outside string literals and what it stands for. -/
structure Word (text : List Char) (datum : Datum) : Prop where
  letters : ∀ c ∈ text, isWord c = true
  stands : scalar? text = some datum

theorem scalar?_of_number? {text : List Char} {datum : Datum} (number : number? text = some datum) :
    scalar? text = some datum := by
  have other {name : List Char} (letters : number? name = none) : text ≠ name := by
    rintro rfl
    rw [letters] at number
    cases number
  rw [scalar?, if_neg (other rfl), if_neg (other rfl), if_neg (other rfl), number]

theorem word_spelling (minimal : Minimal numeral) {datum : Datum}
    (stands : scaled? numeral [] = some datum) : Word numeral.spelling datum := by
  refine ⟨fun _ member => isWord_of_mem minimal.toWellFormed member, scalar?_of_number? ?_⟩
  have number : number? (numeral.spelling ++ []) = scaled? numeral [] := number?_append minimal nofun
  rwa [List.append_nil, stands] at number

theorem word_of_exponent (minimal : Minimal numeral) (power : Int) :
    Word (numeral.spelling ++ 'e' :: (if power < 0 then '-' else '+') :: Text.ofNat power.natAbs)
      (.float ((shifted numeral power).toDouble numeral.negative)) := by
  refine ⟨?_, scalar?_of_number? ?_⟩
  · intro c member
    rcases List.mem_append.mp member with mantissa | exponent
    · exact isWord_of_mem minimal.toWellFormed mantissa
    · rcases List.mem_cons.mp exponent with rfl | exponent
      · rfl
      · rcases List.mem_cons.mp exponent with rfl | digit
        · split <;> rfl
        · exact isWord_of_isDigit ((Text.digits_ofNat _).numeric c digit)
  · rw [number?_append minimal (by rintro _ ⟨⟩; rfl), scaled?, exponent?_sign]
    rfl

theorem minimal_ofNat (negative : Bool) (n : Nat) : Minimal ⟨negative, Text.ofNat n, none⟩ := by
  refine ⟨⟨Text.digits_ofNat n, nofun⟩, ?_⟩
  intro zero
  by_cases nonzero : n = 0
  · subst nonzero
    rfl
  · exact absurd zero (Text.head?_ofNat nonzero)

/-- A printed integer is a word that stands for the integer. -/
theorem word_ofInt (n : Int) : Word (Text.ofInt n) (.int n) := by
  have word := word_spelling (minimal_ofNat (n < 0) n.natAbs) rfl
  have spelling : Text.ofInt n = Numeral.spelling ⟨n < 0, Text.ofNat n.natAbs, none⟩ := by
    rw [Text.ofInt, Numeral.spelling, Numeral.unsigned, Option.elim_none, List.append_nil]
    by_cases negative : n < 0
    · rw [if_pos negative, decide_eq_true negative]
      rfl
    · rw [if_neg negative, decide_eq_false negative]
      rfl
  have size : Numeral.toInt ⟨n < 0, Text.ofNat n.natAbs, none⟩ = n := by
    rw [Numeral.toInt, Text.ofDigitChars_ofNat]
    by_cases negative : n < 0
    · rw [decide_eq_true negative, if_pos rfl]
      omega
    · rw [decide_eq_false negative, if_neg Bool.false_ne_true]
      omega
  rwa [← spelling, size] at word

theorem minimal_point (negative : Bool) {whole fraction : List Char} (first : Digits whole)
    (leading : whole.head? = some '0' → whole = ['0']) (second : Digits fraction) :
    Minimal ⟨negative, whole, some fraction⟩ := by
  refine ⟨⟨first, ?_⟩, leading⟩
  rintro _ ⟨⟩
  exact second

/-- Digits with a point between them stand for the nearest float, however many they are. -/
theorem word_point (negative : Bool) {whole fraction : List Char} (first : Digits whole)
    (leading : whole.head? = some '0' → whole = ['0']) (second : Digits fraction) :
    Word (sign negative ++ (whole ++ '.' :: fraction)) (.float (Decimal.toDouble negative
      ⟨Nat.ofDigitChars 10 (whole ++ fraction) 0, -fraction.length⟩)) := by
  have word := word_spelling (minimal_point negative first leading second) rfl
  rwa [shifted, Option.getD_some, Int.zero_sub] at word

theorem word_scientific (negative : Bool) {digit : Char} {more : List Char}
    (numeric : Digits (digit :: more)) (power : Int) :
    Word (sign negative ++ ([digit] ++ (if more = [] then [] else '.' :: more) ++
        'e' :: (if power < 0 then '-' else '+') :: Text.ofNat power.natAbs))
      (.float (Decimal.toDouble negative
        ⟨Nat.ofDigitChars 10 (digit :: more) 0, power - more.length⟩)) := by
  have first : Digits [digit] := by
    refine ⟨nofun, ?_⟩
    intro c member
    rw [List.mem_singleton.mp member]
    exact numeric.numeric digit List.mem_cons_self
  have leading : [digit].head? = some '0' → [digit] = ['0'] := by
    rintro ⟨⟩
    rfl
  by_cases none : more = []
  · subst none
    have minimal : Minimal ⟨negative, [digit], none⟩ := ⟨⟨first, nofun⟩, leading⟩
    have word := word_of_exponent minimal power
    rw [Numeral.spelling, Numeral.unsigned, List.append_assoc] at word
    exact word
  · have second : Digits more := ⟨none, fun c member => numeric.numeric c (List.mem_cons_of_mem _ member)⟩
    have word := word_of_exponent (minimal_point negative first leading second) power
    rw [Numeral.spelling, Numeral.unsigned, List.append_assoc] at word
    rw [if_neg none]
    exact word

theorem digits_zero : Digits ['0'] := by
  refine ⟨nofun, ?_⟩
  intro c member
  rw [List.mem_singleton.mp member]
  rfl

theorem word_below_one (negative : Bool) (n count : Nat) :
    Word (sign negative ++ (['0'] ++ '.' :: (List.replicate count '0' ++ Text.ofNat n)))
      (.float (Decimal.toDouble negative ⟨n, -(count + (Text.ofNat n).length)⟩)) := by
  have numeric := Text.digits_ofNat n
  have fraction : Digits (List.replicate count '0' ++ Text.ofNat n) := by
    refine ⟨List.append_ne_nil_of_right_ne_nil _ numeric.nonempty, ?_⟩
    intro c member
    exact (List.mem_append.mp member).elim Text.isDigit_of_mem_zeros (numeric.numeric c)
  have word := word_point negative digits_zero (fun _ => rfl) fraction
  have padding : ['0'] ++ (List.replicate count '0' ++ Text.ofNat n) =
      List.replicate (count + 1) '0' ++ Text.ofNat n := rfl
  rw [padding, Text.ofDigitChars_zeros_append, Text.ofDigitChars_ofNat, List.length_append,
    List.length_replicate, Nat.cast_add] at word
  exact word

theorem word_whole (negative : Bool) {n : Nat} (nonzero : n ≠ 0) (count : Nat) :
    Word (sign negative ++ ((Text.ofNat n ++ List.replicate count '0') ++ '.' :: ['0']))
      (.float (Decimal.toDouble negative ⟨n * 10 ^ (count + 1), -1⟩)) := by
  have numeric := Text.digits_ofNat n
  have whole : Digits (Text.ofNat n ++ List.replicate count '0') := numeric.append fun _ => Text.isDigit_of_mem_zeros
  have started : (Text.ofNat n ++ List.replicate count '0').head? ≠ some '0' := by
    rw [List.head?_append_of_ne_nil _ numeric.nonempty]
    exact Text.head?_ofNat nonzero
  have word := word_point negative whole (fun zero => absurd zero started) digits_zero
  have padding : (Text.ofNat n ++ List.replicate count '0') ++ ['0'] =
      Text.ofNat n ++ List.replicate (count + 1) '0' := by
    rw [List.append_assoc, List.replicate_succ']
  rw [padding, Text.ofDigitChars_append_zeros, Text.ofDigitChars_ofNat] at word
  exact word

theorem word_split (negative : Bool) {n whole : Nat} (nonzero : n ≠ 0) (positive : 0 < whole)
    (inside : whole < (Text.ofNat n).length) :
    Word (sign negative ++ ((Text.ofNat n).take whole ++ '.' :: (Text.ofNat n).drop whole))
      (.float (Decimal.toDouble negative ⟨n, -((Text.ofNat n).length - whole : Nat)⟩)) := by
  have numeric := Text.digits_ofNat n
  have first : Digits ((Text.ofNat n).take whole) := by
    refine ⟨?_, fun c member => numeric.numeric c (List.mem_of_mem_take member)⟩
    intro none
    have size := congrArg List.length none
    rw [List.length_take, List.length_nil] at size
    omega
  have second : Digits ((Text.ofNat n).drop whole) := by
    refine ⟨?_, fun c member => numeric.numeric c (List.mem_of_mem_drop member)⟩
    intro none
    have size := congrArg List.length none
    rw [List.length_drop, List.length_nil] at size
    omega
  have started : ((Text.ofNat n).take whole).head? ≠ some '0' := by
    rw [List.head?_take, if_neg (Nat.ne_of_gt positive)]
    exact Text.head?_ofNat nonzero
  have word := word_point negative first (fun zero => absurd zero started) second
  rw [List.take_append_drop, Text.ofDigitChars_ofNat, List.length_drop] at word
  exact word

/-- A printed decimal is a word that stands for the float nearest to it. The literal may have another
exponent than the decimal, but it has the same value. -/
theorem word_decimal (negative : Bool) (d : Decimal) :
    ∃ e : Decimal, e.toRat = d.toRat ∧
      Word (sign negative ++ decimal d) (.float (e.toDouble negative)) := by
  obtain ⟨n, exponent⟩ := d
  have numeric := Text.digits_ofNat n
  have size := List.length_pos_of_ne_nil numeric.nonempty
  simp only [decimal]
  generalize shape : exponent + (Text.ofNat n).length - 1 = first
  split
  · rename_i zero
    subst zero
    refine ⟨⟨0, -1⟩, ?_, word_point negative digits_zero (fun _ => rfl) digits_zero⟩
    rw [Decimal.toRat, Decimal.toRat, Nat.cast_zero, zero_mul, zero_mul]
  · rename_i nonzero
    split
    -- With an exponent, behind which the literal has the digits and the value of the decimal.
    · obtain ⟨digit, more, digits⟩ := List.exists_cons_of_ne_nil numeric.nonempty
      have value := Text.ofDigitChars_ofNat n
      rw [digits] at numeric shape value ⊢
      refine ⟨_, ?_, word_scientific negative numeric first⟩
      rw [List.length_cons, Nat.cast_succ] at shape
      have power : first - more.length = exponent := by omega
      rw [value, power]
    · split
      · rename_i below
        refine ⟨_, ?_, word_below_one negative n (first.natAbs - 1)⟩
        have power : (-((first.natAbs - 1 : Nat) + (Text.ofNat n).length) : Int) = exponent := by omega
        rw [power]
      · rename_i above
        split
        -- Here alone digits are added, so the exponents of the literal and of the decimal differ.
        · rename_i short
          refine ⟨_, ?_, word_whole negative nonzero (first.toNat + 1 - (Text.ofNat n).length)⟩
          have power : exponent = (first.toNat + 1 - (Text.ofNat n).length : Nat) := by omega
          generalize first.toNat + 1 - (Text.ofNat n).length = count at power ⊢
          rw [Decimal.toRat, Decimal.toRat, power, zpow_neg_one, zpow_natCast]
          push_cast
          ring
        · rename_i long
          refine ⟨_, ?_, word_split negative nonzero (Nat.succ_pos first.toNat) (Nat.lt_of_not_le long)⟩
          have power : (-((Text.ofNat n).length - (first.toNat + 1) : Nat) : Int) = exponent := by omega
          rw [power]

/-- A printed number is one word, and a float in it keeps all its bits. -/
theorem word_number (n : Number) : Word (number n) (.ofNumber n) := by
  have letters : "null".toList.all isWord = true := rfl
  have null : Word "null".toList .null := ⟨List.all_eq_true.mp letters, rfl⟩
  cases n with
  | int n => exact word_ofInt n.toInt
  | float x =>
    cases x with
    | finite negative code =>
      obtain ⟨e, same, word⟩ := word_decimal negative (Format.binary64.shortest code)
      rw [Decimal.toDouble_of_shortest same] at word
      exact word
    | infinite negative => exact null
    | nan => exact null

end Settings.Json
