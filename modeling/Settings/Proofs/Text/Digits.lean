import Mathlib.Algebra.Group.Nat.Defs
import Settings.Text

namespace Settings.Text

/-- One or more ASCII digits. -/
structure Digits (text : List Char) : Prop where
  nonempty : text ≠ []
  numeric : ∀ c ∈ text, c.isDigit = true

/-- The sign in front of a number. -/
def sign (negative : Bool) : List Char :=
  if negative then ['-'] else []

/-- The characters with a property in front of a text are a run that ends where one lacks it. -/
theorem takeWhile_run {p : Char → Bool} {run rest : List Char} (inside : ∀ c ∈ run, p c = true)
    (boundary : ∀ c, rest.head? = some c → p c = false) :
    (run ++ rest).takeWhile p = run ∧ (run ++ rest).dropWhile p = rest := by
  rw [List.takeWhile_append_of_pos inside, List.dropWhile_append_of_pos inside]
  cases rest with
  | nil => exact ⟨List.append_nil _, rfl⟩
  | cons c rest =>
    have other : ¬ p c = true := by
      rw [boundary c rfl]
      exact Bool.false_ne_true
    rw [List.takeWhile_cons_of_neg other, List.dropWhile_cons_of_neg other, List.append_nil]
    exact ⟨rfl, rfl⟩

theorem Digits.append {first second : List Char} (digits : Digits first)
    (more : ∀ c ∈ second, c.isDigit = true) : Digits (first ++ second) := by
  refine ⟨List.append_ne_nil_of_left_ne_nil digits.nonempty second, ?_⟩
  intro c member
  rcases List.mem_append.mp member with front | behind
  · exact digits.numeric c front
  · exact more c behind

theorem Digits.head?_ne {text : List Char} {c : Char} (digits : Digits text)
    (other : c.isDigit = false) : text.head? ≠ some c := by
  intro first
  have numeric := digits.numeric c (List.mem_of_mem_head? first)
  rw [other] at numeric
  cases numeric

theorem digits_ofNat (n : Nat) : Digits (ofNat n) :=
  ⟨Nat.toDigits_ne_nil, fun _ member => Nat.isDigit_of_mem_toDigits (by decide) (by decide) member⟩

theorem ofDigitChars_ofNat (n : Nat) : Nat.ofDigitChars 10 (ofNat n) 0 = n :=
  Nat.ofDigitChars_ten_toDigits

theorem ofDigitChars_zeros_append (count : Nat) (digits : List Char) :
    Nat.ofDigitChars 10 (List.replicate count '0' ++ digits) 0 = Nat.ofDigitChars 10 digits 0 := by
  rw [Nat.ofDigitChars_append, Nat.ofDigitChars_replicate_zero, Nat.mul_zero]

theorem ofDigitChars_append_zeros (digits : List Char) (count : Nat) :
    Nat.ofDigitChars 10 (digits ++ List.replicate count '0') 0 =
      Nat.ofDigitChars 10 digits 0 * 10 ^ count := by
  rw [Nat.ofDigitChars_append, Nat.ofDigitChars_replicate_zero, Nat.mul_comm]

theorem isDigit_of_mem_zeros {count : Nat} {c : Char} (member : c ∈ List.replicate count '0') :
    c.isDigit = true := by
  rw [List.eq_of_mem_replicate member]
  rfl

/-- Only zero is written with a zero in front. -/
theorem head?_ofNat {n : Nat} (nonzero : n ≠ 0) : (ofNat n).head? ≠ some '0' := by
  induction n using Nat.strongRecOn with
  | ind n ih =>
    rw [ofNat, Nat.toDigits_eq_if (by decide)]
    split
    · rename_i single
      have digit : ∀ d < 10, d ≠ 0 → [Nat.digitChar d].head? ≠ some '0' := by decide
      exact digit n single nonzero
    · have shorter := ih (n / 10) (by omega) (by omega)
      obtain ⟨first, rest, shape⟩ := List.exists_cons_of_ne_nil (digits_ofNat (n / 10)).nonempty
      rw [ofNat] at shape shorter
      rw [shape] at shorter ⊢
      exact shorter

end Settings.Text
