import Mathlib.Data.List.Forall2
import Settings.Proofs.Text.Trim
import Settings.Text

namespace Settings.Text

theorem lines_of_not_mem {text : List Char} (absent : '\n' ∉ text) (nonempty : text ≠ []) :
    lines text = [text] := by
  induction text with
  | nil => exact absurd rfl nonempty
  | cons c rest ih =>
    obtain ⟨other, later⟩ := not_or.mp (fun here => absent (List.mem_cons.mpr here))
    rw [lines, if_neg (Ne.symm other)]
    cases rest with
    | nil => rfl
    | cons d rest => rw [ih later (List.cons_ne_nil d rest)]

theorem lines_append_newline {body : List Char} (absent : '\n' ∉ body) (rest : List Char) :
    lines (body ++ '\n' :: rest) = (body ++ ['\n']) :: lines rest := by
  induction body with
  | nil => rw [List.nil_append, lines, if_pos rfl, List.nil_append]
  | cons c body ih =>
    obtain ⟨other, later⟩ := not_or.mp (fun here => absent (List.mem_cons.mpr here))
    rw [List.cons_append, lines, if_neg (Ne.symm other), ih later]
    rfl

/-- Induction over the lines of a text, each of which ends at the first newline in it. -/
@[elab_as_elim]
theorem linewise {motive : List Char → Prop} (last : ∀ text, '\n' ∉ text → motive text)
    (line : ∀ body rest, '\n' ∉ body → motive rest → motive (body ++ '\n' :: rest))
    (text : List Char) : motive text := by
  induction size : text.length using Nat.strongRecOn generalizing text with
  | ind n ih =>
    by_cases member : '\n' ∈ text
    · obtain ⟨body, rest, rfl, absent⟩ := List.eq_append_cons_of_mem member
      have shorter : rest.length < n := by
        rw [← size, List.length_append, List.length_cons]
        omega
      exact line body rest absent (ih rest.length shorter rest rfl)
    · exact last text member

/-- Text behind a newline has lines of its own. -/
theorem lines_append_line (first second : List Char) :
    lines (first ++ '\n' :: second) = lines (first ++ ['\n']) ++ lines second := by
  induction first using linewise with
  | last first absent =>
    rw [lines_append_newline absent, lines_append_newline absent]
    rfl
  | line body rest absent ih =>
    rw [List.append_assoc, List.cons_append, lines_append_newline absent, ih, List.append_assoc,
      List.cons_append, lines_append_newline absent, List.cons_append]

theorem length_lines_newline (text : List Char) :
    (lines (text ++ ['\n'])).length = text.count '\n' + 1 := by
  induction text using linewise with
  | last text absent =>
    rw [lines_append_newline absent, List.count_eq_zero.mpr absent]
    rfl
  | line body rest absent ih =>
    rw [List.append_assoc, List.cons_append, lines_append_newline absent, List.length_cons, ih,
      List.count_append, List.count_eq_zero.mpr absent, List.count_cons_self, Nat.zero_add]

/-- A newline at the end of a text ends its last line, or is a blank line of its own. -/
theorem lines_newline (text : List Char) :
    lines (text ++ ['\n']) = lines text ++ [['\n']] ∨
      ∃ before last, lines text = before ++ [last] ∧
        lines (text ++ ['\n']) = before ++ [last ++ ['\n']] := by
  induction text using linewise with
  | last text absent =>
    by_cases empty : text = []
    · subst empty
      exact Or.inl rfl
    · exact Or.inr ⟨[], text, lines_of_not_mem absent empty, lines_append_newline absent []⟩
  | line body rest absent ih =>
    rw [List.append_assoc, List.cons_append, lines_append_newline absent, lines_append_newline absent]
    rcases ih with blank | ⟨before, last, division, ended⟩
    · exact Or.inl (by rw [blank, List.cons_append])
    · exact Or.inr ⟨(body ++ ['\n']) :: before, last, by rw [division, List.cons_append],
        by rw [ended, List.cons_append]⟩

/-- Text on a new line leaves the lines in front as they are, the last one but for its newline. -/
theorem exists_lines_line {text line : List Char} {before : List (List Char)}
    (division : lines text = before ++ [line]) (more : List Char) :
    ∃ other rest, lines (text ++ '\n' :: more) = before ++ other :: rest ∧ trim other = trim line := by
  rw [lines_append_line]
  rcases lines_newline text with blank | ⟨start, last, split, ended⟩
  · rw [blank, division, List.append_assoc, List.append_assoc]
    exact ⟨line, [['\n']] ++ lines more, rfl, rfl⟩
  · rw [division] at split
    obtain ⟨rfl, same⟩ := List.append_inj' split rfl
    cases same
    have newline : Blank ['\n'] := by decide
    rw [ended, List.append_assoc]
    exact ⟨line ++ ['\n'], lines more, rfl, trim_append_of_blank newline⟩

/-- Lines that are joined by newlines are the lines of the text, but for the last one if it is empty. -/
theorem exists_lines_intercalate {contents : List (List Char)} (absent : ∀ content ∈ contents, '\n' ∉ content) :
    ∃ lost, (lost = [] ∨ lost = [[]]) ∧
      List.Forall₂ (fun line content => trim line = trim content)
        (lines (['\n'].intercalate contents) ++ lost) contents := by
  induction contents with
  | nil => exact ⟨[], Or.inl rfl, .nil⟩
  | cons content rest ih =>
    obtain ⟨here, later⟩ := List.forall_mem_cons.mp absent
    cases rest with
    | nil =>
      rw [List.intercalate_singleton]
      by_cases empty : content = []
      · subst empty
        exact ⟨[[]], Or.inr rfl, .cons rfl .nil⟩
      · rw [lines_of_not_mem here empty]
        exact ⟨[], Or.inl rfl, .cons rfl .nil⟩
    | cons second rest =>
      obtain ⟨lost, empty, alike⟩ := ih later
      have newline : Blank ['\n'] := by decide
      refine ⟨lost, empty, ?_⟩
      rw [List.intercalate_cons_cons, List.append_assoc, List.singleton_append, lines_append_newline here]
      exact .cons (trim_append_of_blank newline) alike

/-- The division of a text into its lines. Every line ends with the only newline in it, but the last
line may lack it. -/
inductive Divided : List Char → List (List Char) → Prop
  | none : Divided [] []
  | last {body : List Char} : '\n' ∉ body → body ≠ [] → Divided body [body]
  | line {body rest : List Char} {contents : List (List Char)} :
      '\n' ∉ body → Divided rest contents → Divided (body ++ '\n' :: rest) ((body ++ ['\n']) :: contents)

theorem divided_lines (text : List Char) : Divided text (lines text) := by
  induction text using linewise with
  | last text absent =>
    by_cases empty : text = []
    · subst empty
      exact .none
    · rw [lines_of_not_mem absent empty]
      exact .last absent empty
  | line body rest absent ih =>
    rw [lines_append_newline absent]
    exact .line absent ih

theorem Divided.lines_eq {text : List Char} {contents : List (List Char)}
    (divided : Divided text contents) : lines text = contents := by
  induction divided with
  | none => rfl
  | last absent nonempty => exact lines_of_not_mem absent nonempty
  | line absent _ ih => rw [lines_append_newline absent, ih]

/-- The newline of a line is at its end, where it counts as a blank. -/
theorem not_mem_trim_of_mem_lines {text content : List Char} (member : content ∈ lines text) :
    '\n' ∉ trim content := by
  have divided := divided_lines text
  generalize lines text = contents at member divided
  induction divided with
  | none => cases member
  | last absent _ =>
    rw [List.mem_singleton.mp member]
    exact mt mem_of_mem_trim absent
  | line absent _ ih =>
    rcases List.mem_cons.mp member with rfl | later
    · have newline : Blank ['\n'] := by decide
      rw [trim_append_of_blank newline]
      exact mt mem_of_mem_trim absent
    · exact ih later

theorem Divided.flatten_of_sublist {text : List Char} {contents kept : List (List Char)}
    (divided : Divided text contents) (part : kept.Sublist contents) : Divided kept.flatten kept := by
  induction divided generalizing kept with
  | none =>
    rw [List.sublist_nil.mp part]
    exact .none
  | @last body absent nonempty =>
    rcases List.sublist_singleton.mp part with rfl | rfl
    · exact .none
    · rw [List.flatten_singleton]
      exact .last absent nonempty
  | @line body rest contents absent _ ih =>
    cases part with
    | cons _ later => exact ih later
    | cons_cons _ later =>
      rw [List.flatten_cons, List.append_assoc, List.singleton_append]
      exact .line absent (ih later)

/-- A text with some of its characters in one place replaced by others, newlines not among them. -/
inductive Rewritten : List Char → List Char → Prop
  | same (text : List Char) : Rewritten text text
  | part {head old new tail : List Char} : old ≠ [] → new ≠ [] → '\n' ∉ old → '\n' ∉ new →
      Rewritten (head ++ old ++ tail) (head ++ new ++ tail)

theorem Rewritten.of_not_mem {text other : List Char} (rewritten : Rewritten text other)
    (absent : '\n' ∉ text) (nonempty : text ≠ []) : '\n' ∉ other ∧ other ≠ [] := by
  cases rewritten with
  | same => exact ⟨absent, nonempty⟩
  | part _ some _ inNew =>
    simp only [List.mem_append, not_or] at absent ⊢
    exact ⟨⟨⟨absent.1.1, inNew⟩, absent.2⟩, by simp [some]⟩

theorem Rewritten.exists_body {body other : List Char} (rewritten : Rewritten (body ++ ['\n']) other)
    (absent : '\n' ∉ body) : ∃ renewed, '\n' ∉ renewed ∧ other = renewed ++ ['\n'] := by
  generalize content : body ++ ['\n'] = text at rewritten
  cases rewritten with
  | same => exact ⟨body, absent, content.symm⟩
  | @part head old new tail some _ inOld inNew =>
    rcases List.eq_nil_or_concat tail with rfl | ⟨front, c, rfl⟩
    · obtain ⟨front, c, rfl⟩ := (List.eq_nil_or_concat old).resolve_left some
      rw [List.concat_eq_append] at content inOld
      rw [List.append_nil, ← List.append_assoc] at content
      obtain ⟨-, last⟩ := List.append_inj' content rfl
      cases last
      exact absurd (List.mem_append_right front List.mem_cons_self) inOld
    · rw [List.concat_eq_append, ← List.append_assoc] at content
      rw [List.concat_eq_append]
      obtain ⟨rfl, last⟩ := List.append_inj' content rfl
      cases last
      refine ⟨head ++ new ++ front, ?_, (List.append_assoc _ _ _).symm⟩
      simp only [List.mem_append, not_or] at absent ⊢
      exact ⟨⟨absent.1.1, inNew⟩, absent.2⟩

theorem Divided.rewritten {text : List Char} {contents others : List (List Char)}
    (divided : Divided text contents) (rewritten : List.Forall₂ Rewritten contents others) :
    Divided others.flatten others := by
  induction divided generalizing others with
  | none =>
    cases rewritten
    exact .none
  | last absent nonempty =>
    obtain ⟨other, _, first, none, rfl⟩ := List.forall₂_cons_left_iff.mp rewritten
    cases none
    obtain ⟨line, shown⟩ := first.of_not_mem absent nonempty
    rw [List.flatten_singleton]
    exact .last line shown
  | line absent _ ih =>
    obtain ⟨other, more, first, later, rfl⟩ := List.forall₂_cons_left_iff.mp rewritten
    obtain ⟨body, line, rfl⟩ := first.exists_body absent
    rw [List.flatten_cons, List.append_assoc, List.singleton_append]
    exact .line line (ih later)

/-- Where lines are rewritten, the lines of the text that they make are those lines. -/
theorem lines_flatten_of_rewritten {text : List Char} {contents : List (List Char)}
    (rewritten : List.Forall₂ Rewritten (lines text) contents) : lines contents.flatten = contents :=
  ((divided_lines text).rewritten rewritten).lines_eq

/-- Some lines of a text, put together again, are the lines of a text. -/
theorem lines_flatten_of_sublist {text : List Char} {kept : List (List Char)}
    (part : kept.Sublist (lines text)) : lines kept.flatten = kept :=
  ((divided_lines text).flatten_of_sublist part).lines_eq

/-- A text without one character at its end, if it ends with that character. -/
def Without (c : Char) (text shorter : List Char) : Prop :=
  text = shorter ++ [c] ∨ text = shorter ∧ ¬ [c] <:+ text

theorem without_dropFinal (c : Char) (text : List Char) : Without c text (dropFinal c text) := by
  rw [dropFinal]
  split
  · rename_i ends
    obtain ⟨start, rfl⟩ := List.getLast?_eq_some_iff.mp ends
    exact Or.inl (by rw [List.dropLast_concat])
  · rename_i other
    refine Or.inr ⟨rfl, ?_⟩
    rintro ⟨start, rfl⟩
    exact other List.getLast?_concat

theorem trim_dropFinal {c : Char} (blank : isBlank c = true) (text : List Char) :
    trim (dropFinal c text) = trim text := by
  rcases without_dropFinal c text with ended | ⟨same, _⟩
  · have single : Blank [c] := by
      intro d member
      rw [List.mem_singleton.mp member, blank]
    conv_rhs => rw [ended, trim_append_of_blank single]
  · rw [← same]

/-- Whether a line has its terminator makes no difference once it is trimmed. -/
theorem trim_withoutTerminator (line : List Char) : trim (withoutTerminator line) = trim line := by
  rw [withoutTerminator, trim_dropFinal (by decide), trim_dropFinal (by decide)]

end Settings.Text
