import Settings.Proofs.Literal.Extension

namespace Settings.Literal

theorem ordinary_of_number {text : List Char} {numeral : Numeral} (absent : '.' ∉ text)
    (written : Numeral.ofText? (Text.trim text) = some numeral) :
    ∀ c ∈ text, c ≠ '\'' ∧ c ≠ '{' ∧ c ≠ '}' ∧ c ≠ '.' := by
  intro c member
  obtain ⟨before, after, blankBefore, blankAfter, division⟩ := Text.exists_trim text
  rw [division] at member
  rcases List.mem_append.mp member with front | behind
  · rcases List.mem_append.mp front with first | inside
    · exact ordinary_of_blank blankBefore c first
    · have notDot : c ≠ '.' := by
        rintro rfl
        exact absent (by rw [division]; exact member)
      refine ⟨?_, ?_, ?_, notDot⟩ <;>
      · rintro rfl
        rw [Numeral.ofText?_eq_none inside (by decide)] at written
        cases written
  · exact ordinary_of_blank blankAfter c behind

theorem read_of_readAll_cons {first : List Char} {later : List (List Char)} {v : Value}
    {items : List Value} (visible : Text.trim first ≠ [])
    (all : readAll (((first :: later).map Text.trim).filter (· ≠ [])) = .ok (v :: items)) :
    read (Text.trim first) = .ok v ∧
      readAll ((later.map Text.trim).filter (· ≠ [])) = .ok items := by
  rw [List.map_cons, List.filter_cons_of_pos (by simpa using visible), readAll_eq_ok_iff,
    List.forall₂_cons] at all
  exact ⟨all.1, readAll_eq_ok_iff.mpr all.2⟩

/-- An element does not go on behind the dot that ends it, for then a longer text would have its
value, or would be a literal too. -/
theorem depth_eq_zero_of_read {slot tail : List Char} {v : Value} {items : List Value}
    {parts : List (List Char)} {depth : Nat} {quoted : Bool} (accepted : read (Text.trim slot) = .ok v)
    (plain : (Text.trim slot).head? = some '{' ∨ '.' ∉ slot)
    (inside : Nesting.outermost.through slot = some ⟨depth, quoted⟩)
    (ending : tail = [] ∨ ∃ rest, tail = '.' :: rest)
    (divided : separate (slot ++ tail) = some parts)
    (all : readAll ((parts.map Text.trim).filter (· ≠ [])) = .ok (v :: items)) : depth = 0 := by
  by_contra ground
  obtain ⟨first, later, onward, rfl⟩ := (segments_through inside).mp divided
  rcases ending with rfl | ⟨rest, rfl⟩
  · rw [segments, if_neg ground] at onward
    cases onward
  · obtain ⟨more, others, same⟩ := exists_first_of_segments_cons (fun dot => ground dot.2) onward
    cases same
    obtain ⟨gap, _, trimmed⟩ :=
      Text.exists_trim_append_cons (c := '.') more (trim_ne_nil_of_read accepted) (by decide)
    obtain ⟨longer, _⟩ := read_of_readAll_cons (by rw [trimmed]; simp) all
    rcases read_eq_ok_cases accepted with ⟨characters, quotes, rfl⟩ |
      ⟨numeral, n, written, _, _⟩ | ⟨interior, _, _, braces, _⟩
    · exact not_read_string_append_dot accepted quotes longer
    · rcases plain with opens | absent
      · rw [Numeral.ofText?_eq_none (List.mem_of_mem_head? opens) (by decide)] at written
        cases written
      · rw [Nesting.through_of_ordinary _ (ordinary_of_number absent written)] at inside
        cases inside
        exact ground rfl
    · exact not_read_array_append_dot accepted (by rw [braces]; rfl) longer

/-- An element does not end at a dot inside it. -/
theorem not_divided_of_read {start rest tail : List Char} {v : Value} {items : List Value}
    {parts : List (List Char)} {quoted : Bool} (accepted : read (Text.trim (start ++ '.' :: rest)) = .ok v)
    (plain : (Text.trim (start ++ '.' :: rest)).head? = some '{' ∨ '.' ∉ start ++ '.' :: rest)
    (inside : Nesting.outermost.through start = some ⟨0, quoted⟩)
    (divided : separate (start ++ '.' :: rest ++ tail) = some parts) :
    readAll ((parts.map Text.trim).filter (· ≠ [])) ≠ .ok (v :: items) := by
  intro all
  rcases plain with opens | absent
  · rw [List.append_assoc, List.cons_append] at divided
    obtain ⟨first, later, onward, rfl⟩ := (segments_through inside).mp divided
    rw [segments_dot] at onward
    obtain ⟨others, _, same⟩ := Option.map_eq_some_iff.mp onward
    cases same
    rw [List.append_nil] at all
    have visible : Text.trim start ≠ [] := by
      intro empty
      rw [Text.trim_eq_nil_iff] at empty
      rw [Text.trim_blank_append empty, Text.trim_cons _ (by decide)] at opens
      cases opens
    obtain ⟨gap, _, trimmed⟩ := Text.exists_trim_append_cons (c := '.') rest visible (by decide)
    have starts : (Text.trim start).head? = some '{' := by
      obtain ⟨c, kept, front⟩ := List.exists_cons_of_ne_nil visible
      rw [trimmed, front] at opens
      rw [front]
      exact opens
    obtain ⟨found, _⟩ := read_of_readAll_cons visible all
    exact not_read_array_append_dot found starts accepted
  · exact absent (List.mem_append_right start List.mem_cons_self)

/-- The first segment of a text that starts with an element is the element, if it has the
value of the element. Only a closed element can be found again in this way. -/
theorem closed_of_read_first {slot tail : List Char} {v : Value} {items : List Value}
    {parts : List (List Char)} (accepted : read (Text.trim slot) = .ok v)
    (plain : (Text.trim slot).head? = some '{' ∨ '.' ∉ slot)
    (ending : tail = [] ∨ ∃ rest, tail = '.' :: rest)
    (divided : separate (slot ++ tail) = some parts)
    (all : readAll ((parts.map Text.trim).filter (· ≠ [])) = .ok (v :: items)) :
    Closed slot := by
  rcases Nesting.through_cases .outermost slot with ⟨⟨depth, quoted⟩, inside⟩ |
    ⟨start, rest, quoted, rfl, inside⟩ | ⟨start, rest, rfl, inside⟩
  · have ground := depth_eq_zero_of_read accepted plain inside ending divided all
    subst ground
    exact (closed_iff_through slot).mpr ⟨quoted, inside⟩
  · exact absurd all (not_divided_of_read accepted plain inside divided)
  · rw [List.append_assoc, List.cons_append, separate_append_close inside] at divided
    cases divided

/-- The fragment with blanks of any length around it. -/
def Padded (fragment : String) (slot : List Char) : Prop :=
  ∃ before after, Text.Blank before ∧ Text.Blank after ∧
    slot = before ++ fragment.toList ++ after

theorem Padded.trim_eq {fragment : String} {slot : List Char} (padded : Padded fragment slot) :
    Text.trim slot = Text.trim fragment.toList := by
  obtain ⟨before, after, blankBefore, blankAfter, rfl⟩ := padded
  exact Text.trim_surrounded blankBefore blankAfter

theorem Padded.closed_iff {fragment : String} {slot : List Char} (padded : Padded fragment slot) :
    Closed slot ↔ Closed fragment.toList := by
  obtain ⟨before, after, blankBefore, blankAfter, rfl⟩ := padded
  exact closed_surrounded blankBefore blankAfter

theorem Padded.dot_mem_iff {fragment : String} {slot : List Char} (padded : Padded fragment slot) :
    '.' ∈ slot ↔ '.' ∈ fragment.toList := by
  obtain ⟨before, after, blankBefore, blankAfter, rfl⟩ := padded
  have notBefore : '.' ∉ before := blankBefore.not_mem (by decide)
  have notAfter : '.' ∉ after := blankAfter.not_mem (by decide)
  simp only [List.mem_append, notBefore, notAfter, false_or, or_false]

/-- The interior of an array whose elements are written as the given fragments. -/
inductive Spelling : List String → List Char → Prop
  | none {gap : List Char} : Text.Blank gap → Spelling [] gap
  | last {fragment : String} {slot : List Char} : Padded fragment slot → Spelling [fragment] slot
  | more {fragment next : String} {fragments : List String} {slot interior : List Char} :
      Padded fragment slot → Spelling (next :: fragments) interior →
      Spelling (fragment :: next :: fragments) (slot ++ '.' :: interior)

theorem Spelling.separate_of_closed {fragments : List String} {interior : List Char}
    (spelled : Spelling fragments interior)
    (closed : ∀ fragment ∈ fragments, Closed fragment.toList)
    (visible : ∀ fragment ∈ fragments, Text.trim fragment.toList ≠ []) :
    ∃ parts, separate interior = some parts ∧
      (parts.map Text.trim).filter (· ≠ []) =
        fragments.map fun fragment => Text.trim fragment.toList := by
  induction spelled with
  | none blank =>
    refine ⟨_, Literal.separate_of_closed (closed_of_blank blank), ?_⟩
    simp [(Text.trim_eq_nil_iff _).mpr blank]
  | @last fragment slot padded =>
    have whole := padded.closed_iff.mpr (closed fragment List.mem_cons_self)
    have shown := visible fragment List.mem_cons_self
    refine ⟨_, Literal.separate_of_closed whole, ?_⟩
    simp [padded.trim_eq, shown]
  | @more fragment next fragments slot interior padded rest ih =>
    have whole := padded.closed_iff.mpr (closed fragment List.mem_cons_self)
    have shown := visible fragment List.mem_cons_self
    obtain ⟨parts, divided, trimmed⟩ := ih
      (fun other member => closed other (List.mem_cons_of_mem fragment member))
      (fun other member => visible other (List.mem_cons_of_mem fragment member))
    refine ⟨slot :: parts, ?_, ?_⟩
    · rw [separate_append_dot whole, divided, Option.map_some]
    · rw [List.map_cons, padded.trim_eq, List.filter_cons_of_pos (by simpa using shown), trimmed]
      rfl

theorem Padded.closed_of_read {fragment : String} {slot tail : List Char} {v : Value}
    {items : List Value} {parts : List (List Char)} (padded : Padded fragment slot)
    (accepted : parseValue fragment = .ok v)
    (plain : (Text.trim fragment.toList).head? = some '{' ∨ '.' ∉ fragment.toList)
    (ending : tail = [] ∨ ∃ rest, tail = '.' :: rest)
    (divided : separate (slot ++ tail) = some parts)
    (all : readAll ((parts.map Text.trim).filter (· ≠ [])) = .ok (v :: items)) : Closed slot := by
  rw [parseValue_eq_ok_iff, ← padded.trim_eq] at accepted
  rw [← padded.trim_eq, ← padded.dot_mem_iff] at plain
  exact closed_of_read_first accepted plain ending divided all

theorem Spelling.closed_of_readAll {fragments : List String} {interior : List Char}
    {values : List Value} {parts : List (List Char)} (spelled : Spelling fragments interior)
    (accepted : List.Forall₂ (fun fragment v => parseValue fragment = .ok v) fragments values)
    (plain : ∀ fragment ∈ fragments,
      (Text.trim fragment.toList).head? = some '{' ∨ '.' ∉ fragment.toList)
    (divided : separate interior = some parts)
    (all : readAll ((parts.map Text.trim).filter (· ≠ [])) = .ok values) :
    ∀ fragment ∈ fragments, Closed fragment.toList := by
  induction spelled generalizing values parts with
  | none => intro fragment impossible; cases impossible
  | @last fragment slot padded =>
    obtain ⟨v, rest, value, _, rfl⟩ := List.forall₂_cons_left_iff.mp accepted
    rw [← List.append_nil slot] at divided
    intro other member
    rw [List.mem_singleton.mp member]
    have form := plain fragment List.mem_cons_self
    exact padded.closed_iff.mp (padded.closed_of_read value form (Or.inl rfl) divided all)
  | @more fragment next fragments slot interior padded rest ih =>
    obtain ⟨v, values, value, others, rfl⟩ := List.forall₂_cons_left_iff.mp accepted
    have form := plain fragment List.mem_cons_self
    have whole := padded.closed_of_read value form (Or.inr ⟨interior, rfl⟩) divided all
    rw [separate_append_dot whole] at divided
    obtain ⟨later, found, rfl⟩ := Option.map_eq_some_iff.mp divided
    have visible : Text.trim slot ≠ [] := by
      rw [parseValue_eq_ok_iff, ← padded.trim_eq] at value
      exact trim_ne_nil_of_read value
    obtain ⟨_, tail⟩ := read_of_readAll_cons visible all
    intro other member
    rcases List.mem_cons.mp member with rfl | behind
    · exact padded.closed_iff.mp whole
    · exact ih others (fun fragment inRest => plain fragment (List.mem_cons_of_mem _ inRest)) found tail
        other behind

/-- Literals compose to an array literal just where each of them is closed. An element with a
stray quote may not be closed, though it is a literal by itself. -/
theorem parseValue_array_iff_closed {fragments : List String} {values : List Value}
    {before interior after : List Char}
    (accepted : List.Forall₂ (fun fragment v => parseValue fragment = .ok v) fragments values)
    (plain : ∀ fragment ∈ fragments,
      (Text.trim fragment.toList).head? = some '{' ∨ '.' ∉ fragment.toList)
    (spelled : Spelling fragments interior) (blankBefore : Text.Blank before)
    (blankAfter : Text.Blank after) :
    parseValue (String.ofList (before ++ '{' :: (interior ++ ['}']) ++ after)) = .ok (.array values) ↔
      ∀ fragment ∈ fragments, Closed fragment.toList := by
  have trimmed : Text.trim (before ++ '{' :: (interior ++ ['}']) ++ after) =
      '{' :: (interior ++ ['}']) := by
    rw [Text.trim_surrounded blankBefore blankAfter, Text.trim_cons _ (by decide),
      Text.trimEnd_append_cons _ _ (by decide)]
    rfl
  rw [parseValue_eq_ok_iff, String.toList_ofList, trimmed, read_braces_eq_ok_iff]
  constructor
  · rintro ⟨parts, items, divided, all, same⟩
    cases same
    exact spelled.closed_of_readAll accepted plain divided all
  · intro closed
    have visible : ∀ fragment ∈ fragments, Text.trim fragment.toList ≠ [] := by
      intro fragment member
      obtain ⟨i, bound, rfl⟩ := List.getElem_of_mem member
      have value := accepted.get bound (by rw [← accepted.length_eq]; exact bound)
      rw [List.get_eq_getElem, parseValue_eq_ok_iff] at value
      exact trim_ne_nil_of_read value
    obtain ⟨parts, divided, elements⟩ := spelled.separate_of_closed closed visible
    refine ⟨parts, values, divided, ?_, rfl⟩
    rw [elements, readAll_eq_ok_iff, List.forall₂_map_left_iff]
    exact accepted.imp fun fragment v value => parseValue_eq_ok_iff.mp value

theorem parseValue_array_iff_closed_nested :
    List.Forall₂ (fun fragment v => parseValue fragment = .ok v) [r"{ '}' . '' }", "-7"]
        [.array [.string r"}", .string ""], .int (-7)] ∧
      (parseValue r"{ { '}' . '' } .-7}" =
          .ok (.array [.array [.string r"}", .string ""], .int (-7)]) ↔
        ∀ fragment ∈ [r"{ '}' . '' }", "-7"], Closed fragment.toList) := by
  have accepted : List.Forall₂ (fun fragment v => parseValue fragment = .ok v)
      [r"{ '}' . '' }", "-7"] [.array [.string r"}", .string ""], .int (-7)] :=
    .cons (by with_unfolding_all rfl) (.cons (by with_unfolding_all rfl) .nil)
  have spelled : Spelling [r"{ '}' . '' }", "-7"] r" { '}' . '' } .-7".toList :=
    .more ⟨[' '], [' '], by decide, by decide, rfl⟩ (.last ⟨[], [], by decide, by decide, rfl⟩)
  refine ⟨accepted, ?_⟩
  have blank : Text.Blank [] := by decide
  have written : String.ofList ([] ++ '{' :: (r" { '}' . '' } .-7".toList ++ ['}']) ++ []) =
      r"{ { '}' . '' } .-7}" := rfl
  rw [← written]
  exact parseValue_array_iff_closed accepted (by decide) spelled blank blank

/-- An array with an odd number of quotes in its first element is a literal, but no element of an
array: for the outer array the quotes of the inner one are not over at its dots, and hide the brace
that closes it. -/
theorem not_forall_parseValue_array :
    ¬ ∀ (fragments : List String) (values : List Value) (interior : List Char),
      List.Forall₂ (fun fragment v => parseValue fragment = .ok v) fragments values →
      (∀ fragment ∈ fragments,
        (Text.trim fragment.toList).head? = some '{' ∨ '.' ∉ fragment.toList) →
      Spelling fragments interior →
      parseValue (String.ofList ('{' :: (interior ++ ['}']))) = .ok (.array values) := by
  intro composes
  have inner : parseValue r"{ 'a'b' . 1 }" = .ok (.array [.string "a'b", .int 1]) := by with_unfolding_all rfl
  have whole := composes [r"{ 'a'b' . 1 }"] [.array [.string "a'b", .int 1]]
    r" { 'a'b' . 1 } ".toList
    (.cons inner .nil) (by decide) (.last ⟨[' '], [' '], by decide, by decide, rfl⟩)
  have rejected : parseValue r"{ { 'a'b' . 1 } }" =
      .error ⟨1, .invalidLiteral r"{ { 'a'b' . 1 } }"⟩ := by with_unfolding_all rfl
  have same : String.ofList ('{' :: (r" { 'a'b' . 1 } ".toList ++ ['}'])) =
      r"{ { 'a'b' . 1 } }" := rfl
  rw [same, rejected] at whole
  cases whole

end Settings.Literal
