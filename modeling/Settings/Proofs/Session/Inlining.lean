import Settings.Proofs.Literal.Ends
import Settings.Proofs.Session.Meaning
import Settings.Proofs.Session.Sound

namespace Settings

/-- The value text of the last declaration of a name in front of a line. -/
def declarationBefore (text : String) (line : SourceLine) (name : String) : Option (List Char) :=
  (declaredBy ((logicalLines text).filter (·.number < line.number))).reverse.lookup name

/-- The content of a line, or if the line makes an entry of a constant that the text declares in front of
it, the content with the value text of that declaration in the place of the reference. -/
inductive Inlined (text : String) (line : SourceLine) : List Char → Prop
  | same : Inlined text line line.content
  | reference {key name : String} {reference value head tail : List Char} :
      line ∈ logicalLines text → Statement.entered? line.text = some (key, reference) →
      Statement.referent? reference = some name → declarationBefore text line name = some value →
      ¬ [':', '='] <:+: value → line.content = head ++ reference ++ tail → Text.Blank tail →
      Inlined text line (head ++ value ++ tail)

theorem SourceLine.entered?_text (line : SourceLine) :
    Statement.entered? line.text = Statement.entered? line.content := by
  rw [Statement.entered?, Statement.entered?, line.trim_text]

/-- A line that makes an entry starts with a letter, so it is no border of a comment. -/
theorem not_opens_of_entered? {line : SourceLine} {key : String} {value : List Char}
    (enters : Statement.entered? line.text = some (key, value)) : line.opens = false ∧ line.closes = false := by
  rw [line.entered?_text] at enters
  obtain ⟨gap, space, -, -, -, shape⟩ := (Statement.entered?_eq_some_iff.mp enters).1.exists_trim_eq
  obtain ⟨first, rest, spelled, letter, -⟩ := (Statement.entered?_eq_some_iff.mp enters).1.isIdentifier
  rw [spelled] at shape
  have other (border : List Char) : Text.trim line.content ≠ '=' :: border := by
    intro same
    rw [shape] at same
    cases same
    cases letter
  exact ⟨decide_eq_false (other _), decide_eq_false (other _)⟩

theorem writes_of_declared {lines : List SourceLine} {name : String} {value : List Char}
    (declared : (name, value) ∈ declaredBy lines) : Writes lines name value := by
  obtain ⟨line, inside, declares⟩ := List.mem_filterMap.mp declared
  exact ⟨line, inside, Or.inl declares⟩

theorem mem_of_declarationBefore {text name : String} {line : SourceLine} {value : List Char}
    (declared : declarationBefore text line name = some value) :
    (name, value) ∈ declaredBy (logicalLines text) :=
  (List.filter_sublist.filterMap _).subset (Table.mem_of_lookup_reverse declared)

theorem Bindings.exists_literal_of_declared {bindings final : Bindings} {lines : List SourceLine}
    {name : String} {value : List Char} (succeeded : bindings.readLines lines = (final, none))
    (declared : (name, value) ∈ declaredBy lines) : ∃ v, Statement.literal value = .ok v := by
  obtain ⟨declarations, entries, -, matched, -⟩ := exists_insertAll succeeded
  obtain ⟨declaration, -, -, value⟩ := exists_right_of_mem matched declared
  exact ⟨declaration.2, value⟩

namespace Inlined

variable {text : String} {line : SourceLine} {content : List Char}

/-- Inlining leaves the newlines where they are. -/
theorem rewritten (inlined : Inlined text line content) : Text.Rewritten line.content content := by
  cases inlined with
  | same => exact .same _
  | @reference key name reference value head tail kept enters _ declared _ shape _ =>
    have written : Writes (logicalLines text) key reference := ⟨line, kept, Or.inr enters⟩
    have source := writes_of_declared (mem_of_declarationBefore declared)
    obtain ⟨-, old, oldLine⟩ := written.onLine
    obtain ⟨-, new, newLine⟩ := source.onLine
    rw [shape]
    exact .part old new oldLine newLine

/-- Where a text is without fault, a line with a value text in place of its reference is an entry with
the value of that text. -/
theorem eq_or_entered? {start final : Bindings} {other : SourceLine}
    (succeeded : start.readLines (logicalLines text) = (final, none))
    (inlined : Inlined text line other.content) :
    other.content = line.content ∨
      ∃ key name reference value v, Statement.entered? line.text = some (key, reference) ∧
        Statement.referent? reference = some name ∧ declarationBefore text line name = some value ∧
        Statement.literal value = .ok v ∧ Statement.entered? other.text = some (key, value) := by
  generalize shown : other.content = content at inlined
  cases inlined with
  | same => exact Or.inl rfl
  | @reference key name reference value head tail kept enters refers declared undefined shape blank =>
    obtain ⟨v, literal⟩ := Bindings.exists_literal_of_declared succeeded (mem_of_declarationBefore declared)
    refine Or.inr ⟨key, name, reference, value, v, enters, refers, declared, literal, ?_⟩
    rw [line.entered?_text, shape, Statement.entered?_eq_some_iff] at enters
    have denotes := Statement.literal_eq_ok_iff.mp literal
    have binds := enters.1.replace blank denotes.trim_eq denotes.ne_nil (Statement.head?_ne_of_literal literal)
    rw [other.entered?_text, shown]
    exact Statement.entered?_eq_some_iff.mpr ⟨binds, undefined⟩

end Inlined

namespace Bindings

variable {text : String} {start final : Bindings}

/-- An entry reads a value text as it reads a reference to the constant that the text declares. -/
theorem readLine_inlined {middle next : Bindings} {before after : List SourceLine} {line other : SourceLine}
    (succeeded : start.readLines (logicalLines text) = (final, none))
    (division : logicalLines text = before ++ line :: after) (front : start.readLines before = (middle, none))
    (read : middle.readLine line.text = .ok next) (inlined : Inlined text line other.content) :
    middle.readLine other.text = .ok next := by
  rcases inlined.eq_or_entered? succeeded with same | ⟨key, name, reference, value, v, enters, refers, declared,
    literal, entered⟩
  · rw [SourceLine.text, same]
    exact read
  · -- The constant has the value of its last declaration in front of the line.
    have constant : middle.constants.get? name = some v := by
      rw [declarationBefore, filter_logicalLines division] at declared
      rw [(declares_of_readLines front).values, constantAfter, declared]
      show (Statement.literal value).toOption = some v
      rw [literal]
      rfl
    have stands : Statement.valueWith middle.constants.get? reference = some v := by
      rw [Statement.valueWith, refers]
      exact constant
    have plain : Statement.valueWith middle.constants.get? value = some v := by
      rw [Statement.valueWith, Statement.referent?_of_literal literal, literal]
      rfl
    rw [readLine_of_entered? enters stands] at read
    rw [readLine_of_entered? entered plain]
    exact read

/-- The lines from anywhere on are read alike, for the lines in front lead to the same bindings. -/
theorem readLines_inlined {middle : Bindings} {before rest others : List SourceLine}
    (succeeded : start.readLines (logicalLines text) = (final, none))
    (division : logicalLines text = before ++ rest) (front : start.readLines before = (middle, none))
    (inlined : List.Forall₂ (fun line other => Inlined text line other.content) rest others) :
    middle.readLines others = (final, none) := by
  have behind : middle.readLines rest = (final, none) := by
    rw [← readLines_append front, ← division]
    exact succeeded
  induction inlined generalizing before middle with
  | nil => exact behind
  | @cons line other rest others first later ih =>
    obtain ⟨next, read, onward⟩ := readLines_eq_ok_cons behind
    have moved : start.readLines (before ++ [line]) = (next, none) := by
      rw [readLines_append front, readLines, read]
      rfl
    rw [readLines, readLine_inlined succeeded division front read first]
    refine ih ?_ moved onward
    rw [division, List.append_assoc, List.singleton_append]

end Bindings

namespace Session

/-- A reference means the text of its declaration: in a text without fault, any references to constants
that the text declares can be replaced by the value texts of the declarations in force. -/
theorem parse_inlined {session next : Session} {text : String} {document : Document}
    {contents : List (List Char)} (parsed : session.parse text = (.ok document, next))
    (inlined : List.Forall₂ (Inlined text) (sourceLines text.toList) contents) :
    session.parse (String.ofList contents.flatten) = (.ok document, next) := by
  obtain ⟨constants, run, rfl⟩ := parse_eq_ok_iff.mp parsed
  refine parse_eq_ok_iff.mpr ⟨constants, ?_, rfl⟩
  have rewritten : List.Forall₂ Text.Rewritten (Text.lines text.toList) contents := by
    rw [← contents_numbered 1 (Text.lines text.toList), ← sourceLines_eq_numbered, List.forall₂_map_left_iff]
    exact inlined.imp fun _ _ edited => edited.rewritten
  have lines : sourceLines (String.ofList contents.flatten).toList = numbered 1 contents := by
    rw [sourceLines_eq_numbered, String.toList_ofList, Text.lines_flatten_of_rewritten rewritten]
  have related : List.Forall₂ (fun line other => Inlined text line other.content) (sourceLines text.toList)
      (sourceLines (String.ofList contents.flatten).toList) := by
    rw [← List.forall₂_map_right_iff, lines, contents_numbered]
    exact inlined
  -- An edited line was an entry and is one, so the same lines are comments as before.
  have borders {line other : SourceLine} (edited : Inlined text line other.content) :
      other.opens = line.opens ∧ other.closes = line.closes := by
    rcases edited.eq_or_entered? run with same | ⟨_, _, _, _, _, enters, _, _, _, entered⟩
    · rw [SourceLine.opens, SourceLine.closes, same]
      exact ⟨rfl, rfl⟩
    · obtain ⟨opens, closes⟩ := not_opens_of_entered? enters
      obtain ⟨opens', closes'⟩ := not_opens_of_entered? entered
      exact ⟨opens'.trans opens.symm, closes'.trans closes.symm⟩
  have kept := outsideComments_forall₂ (fun _ _ edited => (borders edited).1)
    (fun _ _ edited => (borders edited).2) related .statements
  exact Bindings.readLines_inlined run (List.nil_append _).symm rfl kept

/-- Two of three references are replaced, by the text with a colon and by the text with braces that the
constant is bound to in front of them. What it was before the text, and in a comment, does not count. -/
theorem parse_inlined_rebound :
    let session : Session := ⟨Table.ofList [("n", .int 7)], .accumulate⟩
    let text := "n := ':'\nk : #[n]\n=begin\nn := 9\n=cut\nn := {1}\ny :#[ n ] \nz : #[n]"
    let document : Document := Table.ofList [("k", .string ":"), ("y", .array [.int 1]), ("z", .array [.int 1])]
    let contents := ["n := ':'\n", "k : ':'\n", "=begin\n", "n := 9\n", "=cut\n", "n := {1}\n",
      "y :{1} \n", "z : #[n]"].map String.toList
    let next : Session := ⟨Table.ofList [("n", .array [.int 1])], .accumulate⟩
    session.parse text = (.ok document, next) ∧
      List.Forall₂ (Inlined text) (sourceLines text.toList) contents ∧
      session.parse (String.ofList contents.flatten) = (.ok document, next) := by
  intro session text document contents next
  have lines : sourceLines text.toList = numbered 1 (["n := ':'\n", "k : #[n]\n", "=begin\n", "n := 9\n",
      "=cut\n", "n := {1}\n", "y :#[ n ] \n", "z : #[n]"].map String.toList) := by
    decide +kernel
  have kept : logicalLines text = [⟨1, "n := ':'\n".toList⟩, ⟨2, "k : #[n]\n".toList⟩,
      ⟨6, "n := {1}\n".toList⟩, ⟨7, "y :#[ n ] \n".toList⟩, ⟨8, "z : #[n]".toList⟩] := by
    rw [logicalLines, lines]
    decide +kernel
  have parsed : session.parse text = (.ok document, next) := by
    dsimp only [text]
    with_unfolding_all rfl
  have first : Inlined text ⟨2, "k : #[n]\n".toList⟩ "k : ':'\n".toList := by
    refine @Inlined.reference _ _ "k" "n" "#[n]".toList "':'".toList "k : ".toList ['\n'] ?_
      (by decide +kernel) rfl ?_ (by decide) rfl (by decide)
    · rw [kept]
      decide
    · rw [declarationBefore, kept]
      decide +kernel
  have second : Inlined text ⟨7, "y :#[ n ] \n".toList⟩ "y :{1} \n".toList := by
    refine @Inlined.reference _ _ "y" "n" "#[ n ]".toList "{1}".toList "y :".toList [' ', '\n'] ?_
      (by decide +kernel) rfl ?_ (by decide) rfl (by decide)
    · rw [kept]
      decide
    · rw [declarationBefore, kept]
      decide +kernel
  have inlined : List.Forall₂ (Inlined text) (sourceLines text.toList) contents := by
    rw [lines]
    exact .cons .same (.cons first (.cons .same (.cons .same (.cons .same (.cons .same (.cons second
      (.cons .same .nil)))))))
  exact ⟨parsed, inlined, parse_inlined parsed inlined⟩

end Session

end Settings
