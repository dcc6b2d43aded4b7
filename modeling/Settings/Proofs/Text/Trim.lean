import Mathlib.Data.List.DropRight
import Settings.Text

namespace Settings.Text

/-- A text of blanks only, so nothing of it is left by trimming. -/
def Blank (text : List Char) : Prop :=
  ∀ c ∈ text, isBlank c = true

instance (text : List Char) : Decidable (Blank text) :=
  decidable_of_iff (text.all isBlank = true) List.all_eq_true

theorem Blank.append {first second : List Char} (blankFirst : Blank first)
    (blankSecond : Blank second) : Blank (first ++ second) := by
  intro c member
  rcases List.mem_append.mp member with inFirst | inSecond
  · exact blankFirst c inFirst
  · exact blankSecond c inSecond

theorem Blank.not_mem {text : List Char} {c : Char} (blank : Blank text)
    (visible : isBlank c = false) : c ∉ text := by
  intro member
  have shown := blank c member
  rw [visible] at shown
  cases shown

theorem trimStart_append_of_blank {before text : List Char} (blank : Blank before) :
    trimStart (before ++ text) = trimStart text :=
  List.dropWhile_append_of_pos blank

theorem trimEnd_append_of_blank {text after : List Char} (blank : Blank after) :
    trimEnd (text ++ after) = trimEnd text := by
  have blankReverse : ∀ c ∈ after.reverse, isBlank c = true := by
    intro c member
    exact blank c (List.mem_reverse.mp member)
  rw [trimEnd, List.reverse_append, List.dropWhile_append_of_pos blankReverse, trimEnd]

theorem trimStart_of_blank {text : List Char} (blank : Blank text) : trimStart text = [] := by
  rw [← List.append_nil text, trimStart_append_of_blank blank]
  rfl

theorem trimEnd_of_blank {text : List Char} (blank : Blank text) : trimEnd text = [] := by
  rw [← List.nil_append text, trimEnd_append_of_blank blank]
  rfl

theorem trimStart_eq_self {text : List Char}
    (starts : ∀ c, text.head? = some c → isBlank c = false) : trimStart text = text := by
  cases text with
  | nil => rfl
  | cons c rest =>
    have visible := starts c rfl
    simp only [trimStart, List.dropWhile_cons, visible, Bool.false_eq_true, if_false]

theorem trimEnd_eq_self {text : List Char}
    (ends : ∀ c, text.getLast? = some c → isBlank c = false) : trimEnd text = text := by
  refine List.rdropWhile_eq_self_iff.mpr ?_
  intro nonempty
  have visible := ends _ (List.getLast?_eq_some_getLast nonempty)
  simp only [visible, Bool.false_eq_true, not_false_eq_true]

theorem exists_trimStart (text : List Char) :
    ∃ before, Blank before ∧ text = before ++ trimStart text := by
  refine ⟨text.takeWhile isBlank, ?_, (List.takeWhile_append_dropWhile).symm⟩
  intro c member
  exact List.mem_takeWhile_imp member

theorem exists_trimEnd (text : List Char) :
    ∃ after, Blank after ∧ text = trimEnd text ++ after := by
  obtain ⟨before, blank, division⟩ := exists_trimStart text.reverse
  refine ⟨before.reverse, ?_, ?_⟩
  · intro c member
    exact blank c (List.mem_reverse.mp member)
  · have reversed := congrArg List.reverse division
    rwa [List.reverse_reverse, List.reverse_append] at reversed

theorem getLast?_trimEnd {text : List Char} {c : Char}
    (last : (trimEnd text).getLast? = some c) : isBlank c = false := by
  rw [trimEnd, List.getLast?_reverse] at last
  have stopped := List.head?_dropWhile_not isBlank text.reverse
  rw [last] at stopped
  simpa using stopped

theorem head?_trimStart {text : List Char} {c : Char}
    (first : (trimStart text).head? = some c) : isBlank c = false := by
  have stopped := List.head?_dropWhile_not isBlank text
  rw [show text.dropWhile isBlank = trimStart text from rfl, first] at stopped
  simpa using stopped

/-- Blanks at the end of what follows a visible character go, the rest stays. -/
theorem trimEnd_append_cons (first rest : List Char) {c : Char} (visible : isBlank c = false) :
    trimEnd (first ++ c :: rest) = first ++ c :: trimEnd rest := by
  obtain ⟨after, blank, division⟩ := exists_trimEnd rest
  have shape : first ++ c :: rest = (first ++ c :: trimEnd rest) ++ after := by
    rw [List.append_assoc, List.cons_append, ← division]
  rw [shape, trimEnd_append_of_blank blank]
  refine trimEnd_eq_self ?_
  intro d last
  rw [List.getLast?_append, List.getLast?_cons] at last
  cases tail : (trimEnd rest).getLast? with
  | none =>
    rw [tail] at last
    cases last
    exact visible
  | some e =>
    rw [tail] at last
    cases last
    exact getLast?_trimEnd tail

theorem trim_append_of_blank {text after : List Char} (blank : Blank after) :
    trim (text ++ after) = trim text := by
  obtain ⟨before, blankBefore, division⟩ := exists_trimStart text
  cases starts : trimStart text with
  | nil =>
    rw [starts, List.append_nil] at division
    rw [trim, trim, starts, division, trimStart_of_blank (blankBefore.append blank)]
  | cons c rest =>
    have visible := head?_trimStart (show (trimStart text).head? = some c by rw [starts]; rfl)
    have whole : trimStart (text ++ after) = c :: rest ++ after := by
      rw [starts] at division
      rw [division, List.append_assoc, trimStart_append_of_blank blankBefore]
      refine trimStart_eq_self ?_
      intro d first
      cases first
      exact visible
    rw [trim, whole, trimEnd_append_of_blank blank, trim, starts]

theorem trim_blank_append {before text : List Char} (blank : Blank before) :
    trim (before ++ text) = trim text := by
  rw [trim, trimStart_append_of_blank blank, trim]

/-- Blanks around a text do not matter once it is trimmed. -/
theorem trim_surrounded {before text after : List Char} (blankBefore : Blank before)
    (blankAfter : Blank after) : trim (before ++ text ++ after) = trim text := by
  rw [trim_append_of_blank blankAfter, trim_blank_append blankBefore]

theorem exists_trim (text : List Char) :
    ∃ before after, Blank before ∧ Blank after ∧ text = before ++ trim text ++ after := by
  obtain ⟨before, blankBefore, front⟩ := exists_trimStart text
  obtain ⟨after, blankAfter, back⟩ := exists_trimEnd (trimStart text)
  refine ⟨before, after, blankBefore, blankAfter, ?_⟩
  rw [trim, List.append_assoc, ← back]
  exact front

theorem mem_of_mem_trim {text : List Char} {c : Char} (member : c ∈ trim text) : c ∈ text := by
  obtain ⟨before, after, -, -, division⟩ := exists_trim text
  rw [division]
  exact List.mem_append_left _ (List.mem_append_right _ member)

theorem trim_cons (rest : List Char) {c : Char} (visible : isBlank c = false) :
    trim (c :: rest) = c :: trimEnd rest := by
  have starts : trimStart (c :: rest) = c :: rest := by
    refine trimStart_eq_self ?_
    intro d first
    cases first
    exact visible
  rw [trim, starts]
  exact trimEnd_append_cons [] rest visible

theorem trim_eq_nil_iff (text : List Char) : trim text = [] ↔ Blank text := by
  constructor
  · intro empty
    obtain ⟨before, after, blankBefore, blankAfter, division⟩ := exists_trim text
    rw [empty, List.append_nil] at division
    rw [division]
    exact blankBefore.append blankAfter
  · intro blank
    rw [trim, trimStart_of_blank blank]
    rfl

theorem head?_trim {text : List Char} {c : Char} (first : (trim text).head? = some c) :
    isBlank c = false := by
  obtain ⟨after, _, division⟩ := exists_trimEnd (trimStart text)
  refine head?_trimStart (show (trimStart text).head? = some c from ?_)
  rw [division]
  cases kept : trim text with
  | nil => rw [kept] at first; cases first
  | cons d rest =>
    rw [kept] at first
    rw [show trimEnd (trimStart text) = d :: rest from kept]
    exact first

theorem getLast?_trim {text : List Char} {c : Char} (last : (trim text).getLast? = some c) :
    isBlank c = false :=
  getLast?_trimEnd last

theorem trim_eq_self {text : List Char} (starts : ∀ c, text.head? = some c → isBlank c = false)
    (ends : ∀ c, text.getLast? = some c → isBlank c = false) : trim text = text := by
  rw [trim, trimStart_eq_self starts, trimEnd_eq_self ends]

theorem trim_trim (text : List Char) : trim (trim text) = trim text :=
  trim_eq_self (fun _ => head?_trim) (fun _ => getLast?_trim)

/-- What ends in a trimmed text loses only the blanks behind it. -/
theorem trimEnd_append_of_trim_eq (front : List Char) {text after : List Char} (trimmed : trim text = text)
    (nonempty : text ≠ []) (blank : Blank after) : trimEnd (front ++ text ++ after) = front ++ text := by
  rw [trimEnd_append_of_blank blank]
  refine trimEnd_eq_self ?_
  intro c last
  rw [List.getLast?_append_of_ne_nil _ nonempty, ← trimmed] at last
  exact getLast?_trim last

/-- Writing a visible character behind a text keeps the trimmed text in front of it. -/
theorem exists_trim_append_cons {text : List Char} {c : Char} (rest : List Char)
    (nonempty : trim text ≠ []) (visible : isBlank c = false) :
    ∃ gap, Blank gap ∧ trim (text ++ c :: rest) = trim text ++ gap ++ c :: trimEnd rest := by
  obtain ⟨before, gap, blankBefore, blankGap, division⟩ := exists_trim text
  refine ⟨gap, blankGap, ?_⟩
  obtain ⟨d, kept, shape⟩ := List.exists_cons_of_ne_nil nonempty
  have shown := head?_trim (show (trim text).head? = some d by rw [shape]; rfl)
  conv_lhs => rw [division, List.append_assoc, List.append_assoc, trim_blank_append blankBefore, shape,
    List.cons_append, trim_cons _ shown, ← List.append_assoc, trimEnd_append_cons _ _ visible]
  rw [shape, List.cons_append, List.cons_append]

end Settings.Text
