import Settings.Proofs.Session.SingleLine
import Settings.Proofs.Statement.Faults
import Settings.Proofs.Statement.Splitting

namespace Settings

open Statement (Splits)

/-- What comes of a line without blanks around it, where some names are bound. The line is a declaration if it
has the operator `:=` anywhere, and what it declares is no reference. -/
inductive Outcome (bindings : Bindings) (line : List Char) : Except Fault Bindings → Prop
  | blank : line = [] → Outcome bindings line (.ok bindings)
  | declaration {name : String} {gap rest : List Char} {v : Value} : [':', '='] <:+: line →
      Splits .define name gap rest line → parseValue (String.ofList rest) = .ok v →
      Outcome bindings line (.ok ⟨bindings.constants.insert name v, bindings.document⟩)
  | badDeclaration {name fragment : String} {gap rest : List Char} : [':', '='] <:+: line →
      Splits .define name gap rest line →
      parseValue (String.ofList rest) = .error ⟨1, .invalidLiteral fragment⟩ →
      Outcome bindings line (.error (.invalidLiteral fragment))
  | noDeclaration : [':', '='] <:+: line → (∀ name gap rest, ¬ Splits .define name gap rest line) →
      Outcome bindings line (.error (.malformedDeclaration (String.ofList line)))
  | entry {key : String} {gap rest : List Char} {v : Value} : ¬ [':', '='] <:+: line →
      Splits .colon key gap rest line → (∀ inner, Text.trim rest ≠ '#' :: '[' :: (inner ++ [']'])) →
      parseValue (String.ofList rest) = .ok v →
      Outcome bindings line (.ok ⟨bindings.constants, bindings.document.insert key v⟩)
  | badEntry {key fragment : String} {gap rest : List Char} : ¬ [':', '='] <:+: line →
      Splits .colon key gap rest line → (∀ inner, Text.trim rest ≠ '#' :: '[' :: (inner ++ [']'])) →
      parseValue (String.ofList rest) = .error ⟨1, .invalidLiteral fragment⟩ →
      Outcome bindings line (.error (.invalidLiteral fragment))
  | reference {key : String} {gap rest inner : List Char} {v : Value} : ¬ [':', '='] <:+: line →
      Splits .colon key gap rest line → Text.trim rest = '#' :: '[' :: (inner ++ [']']) →
      bindings.constants.get? (String.ofList (Text.trim inner)) = some v →
      Outcome bindings line (.ok ⟨bindings.constants, bindings.document.insert key v⟩)
  | badReference {key : String} {gap rest inner : List Char} : ¬ [':', '='] <:+: line →
      Splits .colon key gap rest line → Text.trim rest = '#' :: '[' :: (inner ++ [']']) →
      bindings.constants.get? (String.ofList (Text.trim inner)) = none →
      Outcome bindings line (.error (.undefinedConstant (String.ofList (Text.trim inner))))
  | noEntry : line ≠ [] → ¬ [':', '='] <:+: line → (∀ key gap rest, ¬ Splits .colon key gap rest line) →
      Outcome bindings line (.error (.malformedEntry (String.ofList line)))

/-- A text is a literal, or one of its fragments is invalid. -/
theorem parseValue_cases (text : String) :
    (∃ v, parseValue text = .ok v) ∨ ∃ fragment, parseValue text = .error ⟨1, .invalidLiteral fragment⟩ := by
  rw [parseValue, Statement.literal]
  cases Literal.read (Text.trim text.toList) with
  | ok v => exact Or.inl ⟨v, rfl⟩
  | error fragment => exact Or.inr ⟨String.ofList fragment, rfl⟩

theorem Outcome.exists (bindings : Bindings) (line : List Char) : ∃ outcome, Outcome bindings line outcome := by
  by_cases blank : line = []
  · exact ⟨_, .blank blank⟩
  by_cases mentioned : [':', '='] <:+: line
  · by_cases whole : ∀ name gap rest, ¬ Splits .define name gap rest line
    · exact ⟨_, .noDeclaration mentioned whole⟩
    · push Not at whole
      obtain ⟨name, gap, rest, splits⟩ := whole
      rcases parseValue_cases (String.ofList rest) with ⟨v, value⟩ | ⟨fragment, wrong⟩
      · exact ⟨_, .declaration mentioned splits value⟩
      · exact ⟨_, .badDeclaration mentioned splits wrong⟩
  by_cases whole : ∀ key gap rest, ¬ Splits .colon key gap rest line
  · exact ⟨_, .noEntry blank mentioned whole⟩
  push Not at whole
  obtain ⟨key, gap, rest, splits⟩ := whole
  by_cases plain : ∀ inner, Text.trim rest ≠ '#' :: '[' :: (inner ++ [']'])
  · rcases parseValue_cases (String.ofList rest) with ⟨v, value⟩ | ⟨fragment, wrong⟩
    · exact ⟨_, .entry mentioned splits plain value⟩
    · exact ⟨_, .badEntry mentioned splits plain wrong⟩
  · push Not at plain
    obtain ⟨inner, refers⟩ := plain
    cases bound : bindings.constants.get? (String.ofList (Text.trim inner)) with
    | none => exact ⟨_, .badReference mentioned splits refers bound⟩
    | some v => exact ⟨_, .reference mentioned splits refers bound⟩

namespace Statement

variable {line gap rest : List Char} {name : String}

theorem declared?_of_splits (splits : Splits .define name gap rest (Text.trim line)) :
    declared? line = some (name, Text.trim rest) :=
  declared?_eq_some_iff.mpr (Binds.trim_iff.mp (splits.binds nofun))

theorem entered?_of_splits (unmentioned : ¬ [':', '='] <:+: Text.trim line)
    (splits : Splits .colon name gap rest (Text.trim line)) : entered? line = some (name, Text.trim rest) := by
  refine entered?_eq_some_iff.mpr ⟨Binds.trim_iff.mp (splits.binds fun _ => unmentioned), ?_⟩
  exact fun inside => unmentioned (inside.trans ((Text.trim_infix rest).trans splits.rest_infix))

theorem referent?_eq_none {text : List Char} (plain : ∀ inner, text ≠ '#' :: '[' :: (inner ++ [']'])) :
    referent? text = none := by
  refine Option.eq_none_iff_forall_ne_some.mpr ?_
  intro name refers
  obtain ⟨inner, shape, -⟩ := referent?_eq_some_iff.mp refers
  exact plain inner shape

/-- The value text of a line is read as a text of its own. -/
theorem literal_trim (text : List Char) :
    literal (Text.trim text) = (parseValue (String.ofList text)).mapError ParseError.fault := by
  rw [parseValue, String.toList_ofList]
  cases literal (Text.trim text) <;> rfl

end Statement

namespace Outcome

variable {bindings : Bindings} {line : List Char} {result : Except Fault Bindings}

/-- A line has the outcome that reading it has. -/
theorem readLine_eq (outcome : Outcome bindings (Text.trim line) result) : bindings.readLine line = result := by
  cases outcome with
  | blank empty => exact Bindings.readLine_of_blank empty bindings
  | @declaration name gap rest v _ splits value =>
    have literal : Statement.literal (Text.trim rest) = .ok v := by
      rw [Statement.literal_trim, value]
      rfl
    exact Bindings.readLine_of_declared? (Statement.declared?_of_splits splits) literal bindings
  | badDeclaration _ splits wrong =>
    rw [Bindings.readLine, Statement.ofLine_of_declared? (Statement.declared?_of_splits splits),
      Statement.literal_trim, wrong]
    rfl
  | noDeclaration mentioned whole =>
    have shown : Text.trim line ≠ [] := by
      intro blank
      rw [blank] at mentioned
      exact absurd mentioned (by decide)
    rw [Bindings.readLine, Statement.ofLine, if_neg shown, if_pos (Statement.mentionsDefine_iff.mpr mentioned),
      Statement.binding?_eq_none (Or.inl rfl) whole]
    rfl
  | entry unmentioned splits plain value =>
    refine Bindings.readLine_of_entered? (Statement.entered?_of_splits unmentioned splits) ?_
    rw [Statement.valueWith, Statement.referent?_eq_none plain, Statement.literal_trim, value]
    rfl
  | badEntry unmentioned splits plain wrong =>
    have enters := Statement.entered?_of_splits unmentioned splits
    rw [Bindings.readLine, (Statement.ofLine_of_entered? enters).2 (Statement.referent?_eq_none plain),
      Statement.literal_trim, wrong]
    rfl
  | @reference key gap rest inner v unmentioned splits refers bound =>
    refine Bindings.readLine_of_entered? (Statement.entered?_of_splits unmentioned splits) ?_
    rw [Statement.valueWith, Statement.referent?_eq_some_iff.mpr ⟨inner, refers, rfl⟩]
    exact bound
  | @badReference key gap rest inner unmentioned splits refers unbound =>
    have enters := Statement.entered?_of_splits unmentioned splits
    have named := Statement.referent?_eq_some_iff.mpr ⟨inner, refers, rfl⟩
    rw [Bindings.readLine, (Statement.ofLine_of_entered? enters).1 _ named]
    change bindings.apply (.reference key _) = _
    rw [Bindings.apply, unbound]
  | noEntry shown unmentioned whole =>
    rw [Bindings.readLine, Statement.ofLine, if_neg shown, if_neg (mt Statement.mentionsDefine_iff.mp unmentioned),
      Statement.binding?_eq_none (Or.inr rfl) whole]
    rfl

theorem iff_readLine_eq : Outcome bindings (Text.trim line) result ↔ result = bindings.readLine line := by
  constructor
  · exact fun outcome => outcome.readLine_eq.symm
  · rintro rfl
    obtain ⟨other, outcome⟩ := Outcome.exists bindings (Text.trim line)
    rw [outcome.readLine_eq]
    exact outcome

end Outcome

namespace Session

/-- A text of one line has exactly one outcome, which says what is bound behind it. A fault changes nothing. -/
theorem parse_line {line : String} (single : '\n' ∉ line.toList) :
    (∀ (operator : Token) (name other : String) (gap space rest behind : List Char),
      (operator = .define ∨ operator = .colon) → Splits operator name gap rest (Text.trim line.toList) →
      Splits operator other space behind (Text.trim line.toList) → name = other ∧ gap = space ∧ rest = behind) ∧
    (∀ bindings : Bindings, ∃ outcome,
      (∀ result, Outcome bindings (Text.trim line.toList) result ↔ result = outcome) ∧
      bindings.readLines (logicalLines line) = match outcome with
        | .ok next => (next, none)
        | .error fault => (bindings, some ⟨1, fault⟩)) ∧
    ∀ session : Session, ∃ outcome,
      (∀ result, Outcome ⟨session.initial, .empty⟩ (Text.trim line.toList) result ↔ result = outcome) ∧
      session.parse line = match outcome with
        | .ok next => (.ok next.document, { session with constants := next.constants })
        | .error fault => (.error ⟨1, fault⟩, { session with constants := session.initial }) := by
  refine ⟨fun _ _ _ _ _ _ _ known first second => first.unique known second, ?_, ?_⟩
  · intro bindings
    exact ⟨_, fun result => Outcome.iff_readLine_eq, bindings.readLines_line single⟩
  · intro session
    refine ⟨_, fun result => Outcome.iff_readLine_eq, ?_⟩
    rw [parse_of_readLines (Bindings.readLines_line single _)]
    cases Bindings.readLine ⟨session.initial, .empty⟩ line.toList <;> rfl

/-- A reference with blanks of several kinds, one of them inside the brackets. -/
theorem parse_line_reference :
    let line := "a\u00a0:\t#[ n ] "
    let session : Session := ⟨Table.ofList [("n", .int 7)], .accumulate⟩
    let next : Bindings := ⟨session.initial, Table.ofList [("a", .int 7)]⟩
    '\n' ∉ line.toList ∧ Outcome ⟨session.initial, .empty⟩ (Text.trim line.toList) (.ok next) ∧
      session.parse line = (.ok next.document, session) := by
  intro line session next
  have single : '\n' ∉ line.toList := by decide
  have splits : Splits .colon "a" ['\u00a0'] "\t#[ n ]".toList (Text.trim line.toList) :=
    ⟨by decide, ⟨'a', [], rfl, rfl, nofun⟩, by decide, by decide⟩
  have refers : Text.trim "\t#[ n ]".toList = '#' :: '[' :: (" n ".toList ++ [']']) := by decide
  have outcome : Outcome ⟨session.initial, .empty⟩ (Text.trim line.toList) (.ok next) :=
    .reference (by decide) splits refers rfl
  obtain ⟨-, -, parsed⟩ := parse_line single
  obtain ⟨result, unique, run⟩ := parsed session
  obtain rfl := (unique _).mp outcome
  exact ⟨single, outcome, run⟩

end Session

end Settings
