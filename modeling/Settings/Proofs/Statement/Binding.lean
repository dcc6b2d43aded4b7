import Settings.Proofs.Token.Cursor
import Settings.Statement

namespace Settings.Statement

theorem mentionsDefine_cons (c : Char) (rest : List Char) :
    mentionsDefine (c :: rest) = true ↔ c = ':' ∧ rest.head? = some '=' ∨ mentionsDefine rest = true := by
  rw [mentionsDefine.eq_def]
  split
  · rename_i define
    cases define
    exact iff_of_true rfl (Or.inl ⟨rfl, rfl⟩)
  · rename_i other plain
    cases plain
    constructor
    · exact Or.inr
    · rintro (⟨rfl, first⟩ | later)
      · obtain ⟨more, rfl⟩ := List.head?_eq_some_iff.mp first
        exact absurd rfl (other more rfl)
      · exact later
  · rename_i empty
    cases empty

theorem mentionsDefine_iff {text : List Char} : mentionsDefine text = true ↔ [':', '='] <:+: text := by
  induction text with
  | nil => decide
  | cons c rest ih =>
    rw [mentionsDefine_cons, ih, List.infix_cons_iff, List.cons_prefix_cons]
    cases rest with
    | nil => simp
    | cons d rest => simp [List.cons_prefix_cons, eq_comm]

/-- The operator stands in one of two texts, or across the border between them. -/
theorem mentionsDefine_append {first second : List Char} :
    mentionsDefine (first ++ second) = true ↔ mentionsDefine first = true ∨ mentionsDefine second = true ∨
      first.getLast? = some ':' ∧ second.head? = some '=' := by
  induction first with
  | nil => simp [mentionsDefine]
  | cons c rest ih =>
    rw [List.cons_append, mentionsDefine_cons, mentionsDefine_cons, ih]
    cases rest with
    | nil =>
      simp only [List.nil_append, List.head?_nil, List.getLast?_nil, List.getLast?_singleton, reduceCtorEq,
        and_false, false_and, or_false, false_or, Option.some.injEq, mentionsDefine, Bool.false_eq_true]
      exact or_comm
    | cons d rest =>
      rw [List.getLast?_cons_cons, List.cons_append, List.head?_cons, List.head?_cons, or_assoc]

theorem mentionsDefine_append_of_not_mem {first second : List Char} (absent : ':' ∉ first) :
    mentionsDefine (first ++ second) = true ↔ mentionsDefine second = true := by
  rw [mentionsDefine_append, mentionsDefine_iff]
  constructor
  · rintro (inside | behind | ⟨last, _⟩)
    · exact absurd (inside.subset List.mem_cons_self) absent
    · exact behind
    · exact absurd (List.mem_of_getLast? last) absent
  · exact fun behind => Or.inr (Or.inl behind)

/-- A text that consists of a name, an operator and a value text, with any blanks between and around
them. After a colon that stands for itself there is no equals sign. -/
inductive Binds (operator : Token) (name : String) (value : List Char) : List Char → Prop
  | intro {before gap space after : List Char} : Text.Blank before → Text.Blank gap →
      Text.Blank space → Text.Blank after → IsIdentifier name → Text.trim value = value → value ≠ [] →
      (operator = .colon → (space ++ value).head? ≠ some '=') →
      Binds operator name value
        (before ++ (name.toList ++ (gap ++ (operator.spelling ++ (space ++ (value ++ after))))))

variable {operator : Token} {text value : List Char} {name : String}

theorem binding?_eq (operator : Token) (text : List Char) :
    binding? operator text = match (Cursor.start text).next.1 with
      | .ident name =>
        if (Cursor.start text).next.2.next.1 = operator ∧
            Text.trim (Cursor.start text).next.2.next.2.unread ≠ [] then
          some (name, Text.trim (Cursor.start text).next.2.next.2.unread)
        else none
      | _ => none := by
  rw [← (Cursor.reads_start text).next.next.takeRest_fst]
  rfl

theorem unnamed_of_blank {gap rest : List Char} {c : Char} (blank : Text.Blank gap)
    (other : c.isAlphanum = false) : Unnamed (gap ++ c :: rest) := by
  intro d first
  cases gap with
  | nil =>
    cases first
    exact other
  | cons b gap =>
    cases first
    cases letter : d.isAlphanum with
    | false => rfl
    | true =>
      have visible := not_isBlank_of_isAlphanum letter
      rw [blank d List.mem_cons_self] at visible
      cases visible

theorem binds_of_binding? (known : operator = .define ∨ operator = .colon)
    (found : binding? operator text = some (name, value)) : Binds operator name value text := by
  rw [binding?_eq] at found
  split at found
  · rename_i first head
    split at found
    · rename_i valid
      cases found
      obtain ⟨operates, nonempty⟩ := valid
      obtain ⟨before, blankBefore, front⟩ := Text.exists_trimStart text
      have named := head
      rw [Cursor.next_fst, Token.leading_eq_ident_iff] at named
      obtain ⟨identifier, rest, spelled, -⟩ := named
      have behind : (Cursor.start text).next.2.unread = rest :=
        Cursor.unread_next (by rw [head]; exact spelled)
      obtain ⟨gap, blankGap, middle⟩ := Text.exists_trimStart rest
      have operated := operates
      rw [Cursor.next_fst, behind, Token.leading_eq_operator_iff known] at operated
      obtain ⟨last, shape, alone⟩ := operated
      have remaining : (Cursor.start text).next.2.next.2.unread = last :=
        Cursor.unread_next (by rw [behind, operates]; exact shape)
      rw [remaining] at nonempty ⊢
      obtain ⟨space, after, blankSpace, blankAfter, back⟩ := Text.exists_trim last
      have division : text = before ++ (name.toList ++ (gap ++ (operator.spelling ++
          (space ++ (Text.trim last ++ after))))) := by
        rw [← List.append_assoc space, ← back, ← shape, ← middle, ← spelled]
        exact front
      rw [division]
      refine .intro blankBefore blankGap blankSpace blankAfter identifier (Text.trim_trim last) nonempty ?_
      intro colon first
      refine alone colon ?_
      rw [back, List.head?_append_of_ne_nil _ (List.append_ne_nil_of_right_ne_nil _ nonempty)]
      exact first
    · cases found
  · cases found

theorem Binds.binding?_eq_some (known : operator = .define ∨ operator = .colon)
    (binds : Binds operator name value text) : binding? operator text = some (name, value) := by
  obtain @⟨before, gap, space, after, blankBefore, blankGap, blankSpace, blankAfter, identifier, trimmed,
    nonempty, alone⟩ := binds
  obtain ⟨more, colon⟩ : ∃ more, operator.spelling = ':' :: more := by
    rcases known with rfl | rfl
    · exact ⟨['='], rfl⟩
    · exact ⟨[], rfl⟩
  obtain ⟨last, remaining⟩ : ∃ last, space ++ (value ++ after) = last := ⟨_, rfl⟩
  obtain ⟨rest, behind⟩ : ∃ rest, gap ++ (operator.spelling ++ last) = rest := ⟨_, rfl⟩
  rw [remaining, behind]
  have named : Text.trimStart (before ++ (name.toList ++ rest)) = name.toList ++ rest := by
    rw [Text.trimStart_append_of_blank blankBefore]
    exact Text.trimStart_eq_self fun c => identifier.head?_append
  have ended : Unnamed rest := by
    rw [← behind, colon]
    exact unnamed_of_blank blankGap rfl
  have head : (Cursor.start (before ++ (name.toList ++ rest))).next.1 = .ident name := by
    rw [Cursor.next_fst]
    exact (congrArg _ named).trans (Token.leading_name identifier ended)
  have unread : (Cursor.start (before ++ (name.toList ++ rest))).next.2.unread = rest :=
    Cursor.unread_next (by rw [head]; exact named)
  have operated : Text.trimStart rest = operator.spelling ++ last := by
    rw [← behind, Text.trimStart_append_of_blank blankGap, colon]
    refine Text.trimStart_eq_self ?_
    rintro _ ⟨⟩
    rfl
  have operates : (Cursor.start (before ++ (name.toList ++ rest))).next.2.next.1 = operator := by
    rw [Cursor.next_fst, unread, operated, Token.leading_eq_operator_iff known]
    refine ⟨last, rfl, ?_⟩
    intro same first
    refine alone same ?_
    rw [← remaining, ← List.append_assoc,
      List.head?_append_of_ne_nil _ (List.append_ne_nil_of_right_ne_nil _ nonempty)] at first
    exact first
  have final : (Cursor.start (before ++ (name.toList ++ rest))).next.2.next.2.unread = last :=
    Cursor.unread_next (by rw [unread, operates]; exact operated)
  have kept : Text.trim last = value := by
    rw [← remaining, ← List.append_assoc, Text.trim_surrounded blankSpace blankAfter, trimmed]
  rw [binding?_eq, head]
  simp only [operates, final, kept, nonempty, ne_eq, not_false_eq_true, and_self, if_true]

/-- A binding is what a text that binds a name is taken apart as. -/
theorem binding?_eq_some_iff (known : operator = .define ∨ operator = .colon) :
    binding? operator text = some (name, value) ↔ Binds operator name value text :=
  ⟨binds_of_binding? known, Binds.binding?_eq_some known⟩

namespace Binds

/-- Without the blanks around it, a text that binds a name is the name, the operator and the value text
with blanks between them only. -/
theorem exists_trim_eq (binds : Binds operator name value text) :
    ∃ gap space, Text.Blank gap ∧ Text.Blank space ∧
      (operator = .colon → (space ++ value).head? ≠ some '=') ∧
      Text.trim text = name.toList ++ (gap ++ (operator.spelling ++ (space ++ value))) := by
  obtain @⟨before, gap, space, after, blankBefore, blankGap, blankSpace, blankAfter, identifier, trimmed,
    nonempty, alone⟩ := binds
  refine ⟨gap, space, blankGap, blankSpace, alone, ?_⟩
  have division : before ++ (name.toList ++ (gap ++ (operator.spelling ++ (space ++ (value ++ after))))) =
      before ++ (name.toList ++ (gap ++ (operator.spelling ++ (space ++ value)))) ++ after := by
    simp only [List.append_assoc]
  rw [division, Text.trim_surrounded blankBefore blankAfter]
  refine Text.trim_eq_self (fun c => identifier.head?_append) ?_
  intro c last
  have ends : (Text.trim value).getLast? = some c := by
    rw [trimmed, ← last]
    simp only [← List.append_assoc]
    exact (List.getLast?_append_of_ne_nil _ nonempty).symm
  exact Text.getLast?_trim ends

theorem isIdentifier (binds : Binds operator name value text) : IsIdentifier name := by
  obtain ⟨-, -, -, -, identifier, -, -, -⟩ := binds
  exact identifier

theorem trim_value (binds : Binds operator name value text) : Text.trim value = value := by
  obtain ⟨-, -, -, -, -, trimmed, -, -⟩ := binds
  exact trimmed

theorem value_ne_nil (binds : Binds operator name value text) : value ≠ [] := by
  obtain ⟨-, -, -, -, -, -, nonempty, -⟩ := binds
  exact nonempty

theorem value_infix (binds : Binds operator name value text) : value <:+: text := by
  obtain @⟨before, gap, space, after, -, -, -, -, -, -, -, -⟩ := binds
  refine ⟨before ++ (name.toList ++ (gap ++ (operator.spelling ++ space))), after, ?_⟩
  simp only [List.append_assoc]

theorem mem_text (binds : Binds operator name value text) {c : Char} (member : c ∈ value) : c ∈ text :=
  binds.value_infix.subset member

theorem surrounded {first last : List Char} (blankFirst : Text.Blank first) (blankLast : Text.Blank last)
    (binds : Binds operator name value text) : Binds operator name value (first ++ text ++ last) := by
  obtain @⟨before, gap, space, after, blankBefore, blankGap, blankSpace, blankAfter, identifier, trimmed,
    nonempty, alone⟩ := binds
  have wider := Binds.intro (blankFirst.append blankBefore) blankGap blankSpace
    (blankAfter.append blankLast) identifier trimmed nonempty alone
  simpa only [List.append_assoc] using wider

/-- Blanks around a text that binds a name do not matter. -/
theorem trim_iff : Binds operator name value (Text.trim text) ↔ Binds operator name value text := by
  constructor
  · intro binds
    obtain ⟨first, last, blankFirst, blankLast, division⟩ := Text.exists_trim text
    rw [division]
    exact binds.surrounded blankFirst blankLast
  · intro binds
    obtain ⟨gap, space, blankGap, blankSpace, alone, shape⟩ := binds.exists_trim_eq
    have blank : Text.Blank [] := by decide
    have bare := Binds.intro blank blankGap blankSpace blank binds.isIdentifier binds.trim_value
      binds.value_ne_nil alone
    rw [List.append_nil, List.nil_append] at bare
    rw [shape]
    exact bare

/-- Another value text can stand in the place of the value text. -/
theorem replace {head tail other : List Char} (binds : Binds operator name value (head ++ value ++ tail))
    (blank : Text.Blank tail) (trimmed : Text.trim other = other) (nonempty : other ≠ [])
    (alone : other.head? ≠ some '=') : Binds operator name other (head ++ other ++ tail) := by
  generalize content : head ++ value ++ tail = text at binds
  obtain @⟨before, gap, space, after, blankBefore, blankGap, blankSpace, blankAfter, identifier, same, some, _⟩ :=
    binds
  have regroup (value : List Char) :
      before ++ (name.toList ++ (gap ++ (operator.spelling ++ (space ++ (value ++ after))))) =
        before ++ (name.toList ++ (gap ++ (operator.spelling ++ space))) ++ value ++ after := by
    simp only [List.append_assoc]
  -- Up to the end of the value text the two divisions of the text agree, so they agree in front of it.
  rw [regroup] at content
  have front := congrArg Text.trimEnd content
  rw [Text.trimEnd_append_of_trim_eq _ same some blank,
    Text.trimEnd_append_of_trim_eq _ same some blankAfter] at front
  obtain rfl := List.append_cancel_right front
  obtain rfl := List.append_cancel_left content
  rw [← regroup]
  refine .intro blankBefore blankGap blankSpace blankAfter identifier trimmed nonempty ?_
  intro _ first
  cases space with
  | nil => exact alone first
  | cons c space =>
    cases first
    exact absurd (blankSpace '=' List.mem_cons_self) (by decide)

theorem mentionsDefine (binds : Binds .define name value text) :
    Statement.mentionsDefine (Text.trim text) = true := by
  obtain ⟨gap, space, -, -, -, shape⟩ := binds.exists_trim_eq
  refine mentionsDefine_iff.mpr ⟨name.toList ++ gap, space ++ value, ?_⟩
  rw [shape, List.append_assoc, List.append_assoc]
  rfl

/-- Where a colon binds a name, `:=` can only stand in the value text. -/
theorem mentionsDefine_colon_iff (binds : Binds .colon name value text) :
    Statement.mentionsDefine (Text.trim text) = true ↔ Statement.mentionsDefine value = true := by
  obtain ⟨gap, space, blankGap, blankSpace, alone, shape⟩ := binds.exists_trim_eq
  have inName : ':' ∉ name.toList := binds.isIdentifier.not_mem rfl
  have inGap : ':' ∉ gap := blankGap.not_mem rfl
  have inSpace : ':' ∉ space := blankSpace.not_mem rfl
  have colon : Token.colon.spelling ++ (space ++ value) = ':' :: (space ++ value) := rfl
  rw [shape, mentionsDefine_append_of_not_mem inName, mentionsDefine_append_of_not_mem inGap, colon,
    mentionsDefine_cons, mentionsDefine_append_of_not_mem inSpace]
  exact or_iff_right fun define => alone rfl define.2

end Binds

end Settings.Statement
