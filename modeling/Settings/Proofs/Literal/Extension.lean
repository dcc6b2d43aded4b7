import Settings.Proofs.Literal.Reading
import Settings.Proofs.Literal.Segments
import Settings.Proofs.Text.Trim

namespace Settings.Literal

theorem ordinary_of_blank {text : List Char} (blank : Text.Blank text) :
    ∀ c ∈ text, c ≠ '\'' ∧ c ≠ '{' ∧ c ≠ '}' ∧ c ≠ '.' := by
  intro c member
  have shown := blank c member
  refine ⟨?_, ?_, ?_, ?_⟩ <;>
  · rintro rfl
    revert shown
    decide

theorem closed_surrounded {before text after : List Char} (blankBefore : Text.Blank before)
    (blankAfter : Text.Blank after) : Closed (before ++ text ++ after) ↔ Closed text := by
  have same : Nesting.outermost.through (before ++ text ++ after) =
      Nesting.outermost.through text := by
    rw [List.append_assoc, Nesting.through_append,
      Nesting.through_of_ordinary _ (ordinary_of_blank blankBefore), Option.bind_some,
      Nesting.through_append]
    cases Nesting.outermost.through text with
    | none => rfl
    | some place => exact Nesting.through_of_ordinary place (ordinary_of_blank blankAfter)
  rw [closed_iff_through, closed_iff_through, same]

theorem closed_of_blank {text : List Char} (blank : Text.Blank text) : Closed text :=
  (closed_iff_through text).mpr ⟨false, Nesting.through_of_ordinary _ (ordinary_of_blank blank)⟩

theorem exists_read_of_mem {parts : List (List Char)} {items : List Value} {part : List Char}
    (all : readAll ((parts.map Text.trim).filter (· ≠ [])) = .ok items) (member : part ∈ parts)
    (visible : Text.trim part ≠ []) : ∃ v, read (Text.trim part) = .ok v := by
  have kept : Text.trim part ∈ (parts.map Text.trim).filter (· ≠ []) :=
    List.mem_filter.mpr ⟨List.mem_map_of_mem member, by simpa using visible⟩
  obtain ⟨v, -, read⟩ := exists_right_of_mem (readAll_eq_ok_iff.mp all) kept
  exact ⟨v, read⟩

theorem length_le_of_mem_separate {interior part : List Char} {parts : List (List Char)}
    (divided : separate interior = some parts) (member : part ∈ parts) :
    part.length ≤ interior.length := by
  have bound : ∀ all : List (List Char), part ∈ all → part.length + 1 ≤ extent all := by
    intro all
    induction all with
    | nil => intro impossible; cases impossible
    | cons first later ih =>
      intro found
      rw [extent]
      rcases List.mem_cons.mp found with rfl | behind
      · omega
      · have shorter := ih behind
        omega
  have within := bound parts member
  rw [extent_separate divided] at within
  omega

/-- A closing brace behind the braces of an array can only be quoted. It is then part of the
last segment, which is a literal with the brace and without. -/
theorem exists_read_append_close {interior gap tail : List Char} {v : Value}
    {whole : List (List Char)} {items : List Value}
    (accepted : read ('{' :: (interior ++ ['}'])) = .ok v) (blank : Text.Blank gap)
    (ending : tail = [] ∨ ∃ rest, tail = '.' :: rest)
    (divided : separate (interior ++ ('}' :: gap ++ tail)) = some whole)
    (all : readAll ((whole.map Text.trim).filter (· ≠ [])) = .ok items) :
    ∃ last space u w, last.length ≤ interior.length ∧ Text.Blank space ∧ read last = .ok u ∧
      read (last ++ space ++ ['}']) = .ok w := by
  obtain ⟨parts, inner, separated, innerAll, _⟩ := read_braces_eq_ok_iff.mp accepted
  obtain ⟨before, last, quoted, rfl, inside, resume⟩ := exists_last_of_separate separated
  obtain ⟨first, later, onward, rfl⟩ := resume _ _ divided
  have member : last ∈ before ++ [last] := List.mem_append_right before List.mem_cons_self
  cases quoted with
  | false =>
    rw [List.cons_append, segments_close] at onward
    cases onward
  | true =>
    have blanks := Nesting.through_of_ordinary ⟨0, true⟩ (ordinary_of_blank blank)
    have through : Nesting.through ⟨0, true⟩ ('}' :: gap) = some ⟨0, true⟩ := by
      simpa [Nesting.through, Nesting.after] using blanks
    obtain ⟨stub, others, ended, same⟩ := (segments_through through).mp onward
    have nothing : stub = [] := by
      rcases ending with rfl | ⟨rest, rfl⟩
      · cases ended
        rfl
      · rw [segments_dot] at ended
        obtain ⟨found, _, shape⟩ := Option.map_eq_some_iff.mp ended
        cases shape
        rfl
    obtain ⟨rfl, rfl⟩ := List.cons_eq_cons.mp same
    rw [nothing, List.append_nil] at all
    have visible : Text.trim last ≠ [] := by
      intro empty
      rw [Text.trim_eq_nil_iff] at empty
      rw [Nesting.through_of_ordinary _ (ordinary_of_blank empty)] at inside
      cases inside
    obtain ⟨space, blankSpace, trimmed⟩ :=
      Text.exists_trim_append_cons (c := '}') gap visible (by decide)
    rw [Text.trimEnd_of_blank blank] at trimmed
    obtain ⟨u, read⟩ := exists_read_of_mem innerAll member visible
    have longer : last ++ '}' :: gap ∈ before ++ (last ++ '}' :: gap) :: later :=
      List.mem_append_right before List.mem_cons_self
    obtain ⟨w, readLonger⟩ := exists_read_of_mem all longer (by rw [trimmed]; simp)
    rw [trimmed] at readLonger
    have short := length_le_of_mem_separate separated member
    exact ⟨Text.trim last, space, u, w, (Text.length_trim_le last).trans short, blankSpace, read,
      readLonger⟩

/-- A literal does not stay one when a closing brace is written behind it. -/
theorem not_read_append_close {text space : List Char} {v w : Value}
    (accepted : read text = .ok v) (blank : Text.Blank space) :
    read (text ++ space ++ ['}']) ≠ .ok w := by
  -- By length: the last element of an array is shorter and has the quoted brace behind it too.
  induction size : text.length using Nat.strongRecOn generalizing text space v w with
  | ind n ih =>
    intro longer
    rcases read_eq_ok_cases longer with ⟨characters, shape, _⟩ | ⟨numeral, n, written, _, _⟩ |
      ⟨interior, parts, items, shape, separated, all, _⟩
    · have ends := congrArg List.getLast? shape
      rw [List.getLast?_concat, ← List.cons_append, List.getLast?_concat] at ends
      cases ends
    · have brace : '}' ∈ text ++ space ++ ['}'] := List.mem_append_right _ List.mem_cons_self
      rw [Numeral.ofText?_eq_none brace (by decide)] at written
      cases written
    · cases text with
      | nil =>
        rw [read_nil] at accepted
        cases accepted
      | cons c rest =>
        obtain ⟨rfl, behind⟩ := List.cons_eq_cons.mp shape
        have inner : rest ++ space = interior := List.append_cancel_right behind
        subst inner
        rcases read_eq_ok_cases accepted with ⟨characters, opening, _⟩ |
          ⟨numeral, n, written, _, _⟩ | ⟨inside, _, _, opening, _⟩
        · cases opening
        · rw [Numeral.ofText?_eq_none List.mem_cons_self (by decide)] at written
          cases written
        · obtain ⟨_, rfl⟩ := List.cons_eq_cons.mp opening
          rw [show inside ++ ['}'] ++ space = inside ++ ('}' :: space ++ []) by simp] at separated
          obtain ⟨last, gap, u, x, short, blankGap, first, second⟩ :=
            exists_read_append_close accepted blank (Or.inl rfl) separated all
          refine ih last.length ?_ first blankGap rfl second
          rw [← size, List.length_cons, List.length_append]
          omega

/-- Of an array and a text that goes on with a dot behind its braces, only one can stand in
braces of its own. -/
theorem not_read_braces_append {interior gap rest : List Char} {v w : Value}
    (accepted : read ('{' :: (interior ++ ['}'])) = .ok v) (blank : Text.Blank gap) :
    read ('{' :: (interior ++ ('}' :: gap ++ '.' :: rest) ++ ['}'])) ≠ .ok w := by
  intro longer
  obtain ⟨parts, items, separated, all, _⟩ := read_braces_eq_ok_iff.mp longer
  obtain ⟨last, space, u, x, _, blankSpace, first, second⟩ :=
    exists_read_append_close accepted blank (Or.inr ⟨rest, rfl⟩) separated all
  exact not_read_append_close first blankSpace second

theorem exists_interior_of_head {text : List Char} {v : Value} (accepted : read text = .ok v)
    (opens : text.head? = some '{') : ∃ interior, text = '{' :: (interior ++ ['}']) := by
  obtain ⟨rest, rfl⟩ := List.head?_eq_some_iff.mp opens
  rcases read_eq_ok_cases accepted with ⟨_, shape, _⟩ | ⟨_, _, written, _, _⟩ |
    ⟨interior, _, _, shape, _⟩
  · cases shape
  · rw [Numeral.ofText?_eq_none List.mem_cons_self (by decide)] at written
    cases written
  · exact ⟨interior, shape⟩

theorem trim_ne_nil_of_read {text : List Char} {v : Value}
    (accepted : read (Text.trim text) = .ok v) : Text.trim text ≠ [] := by
  intro empty
  rw [empty, read_nil] at accepted
  cases accepted

/-- An array does not stay a literal when a dot and more text follow its braces. -/
theorem not_read_array_append_dot {text rest : List Char} {v w : Value}
    (accepted : read (Text.trim text) = .ok v) (opens : (Text.trim text).head? = some '{') :
    read (Text.trim (text ++ '.' :: rest)) ≠ .ok w := by
  intro longer
  obtain ⟨gap, blank, trimmed⟩ :=
    Text.exists_trim_append_cons (c := '.') rest (trim_ne_nil_of_read accepted) (by decide)
  obtain ⟨interior, shape⟩ := exists_interior_of_head accepted opens
  rw [trimmed, shape] at longer
  rw [shape] at accepted
  obtain ⟨outer, whole⟩ := exists_interior_of_head longer rfl
  rcases List.eq_nil_or_concat (Text.trimEnd rest) with none | ⟨most, last, final⟩
  · rw [none] at whole
    have ends := congrArg List.getLast? whole
    rw [List.getLast?_concat, ← List.cons_append, List.getLast?_concat] at ends
    cases ends
  · have regroup : '{' :: (interior ++ ['}']) ++ gap ++ '.' :: Text.trimEnd rest =
        '{' :: (interior ++ ('}' :: gap ++ '.' :: most) ++ [last]) := by
      rw [final]
      simp only [List.concat_eq_append, List.append_assoc, List.cons_append, List.nil_append]
    rw [regroup] at whole longer
    obtain ⟨_, same⟩ := List.cons_eq_cons.mp whole
    obtain ⟨_, closing⟩ := List.append_inj' same rfl
    cases closing
    exact not_read_braces_append accepted blank longer

/-- What is quoted up to a character in front of a dot is not the same string as what is
quoted up to a later one. -/
theorem not_read_string_append_dot {text rest characters : List Char}
    (accepted : read (Text.trim text) = .ok (.string (String.ofList characters)))
    (quoted : Text.trim text = '\'' :: (characters ++ ['\''])) :
    read (Text.trim (text ++ '.' :: rest)) ≠ .ok (.string (String.ofList characters)) := by
  intro longer
  obtain ⟨gap, blank, trimmed⟩ :=
    Text.exists_trim_append_cons (c := '.') rest (trim_ne_nil_of_read accepted) (by decide)
  rcases read_eq_ok_cases longer with ⟨others, whole, same⟩ | ⟨_, _, _, _, other⟩ |
    ⟨_, _, _, _, _, _, other⟩
  · have equal := String.ofList_injective (Value.string.inj same)
    rw [trimmed, quoted, ← equal] at whole
    have size := congrArg List.length whole
    simp only [List.length_append, List.length_cons] at size
    omega
  · cases other
  · cases other

end Settings.Literal
