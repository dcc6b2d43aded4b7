import Mathlib.Data.List.Forall2
import Settings.Proofs.Text.Lines
import Settings.Source

namespace Settings

/-- Lines under consecutive numbers. -/
def numbered (first : Nat) (contents : List (List Char)) : List SourceLine :=
  (contents.zipIdx first).map fun (content, number) => ⟨number, content⟩

theorem sourceLines_eq_numbered (text : List Char) :
    sourceLines text = numbered 1 (Text.lines text) := rfl

theorem numbered_cons (first : Nat) (content : List Char) (rest : List (List Char)) :
    numbered first (content :: rest) = ⟨first, content⟩ :: numbered (first + 1) rest := rfl

theorem numbered_append (first : Nat) (contents more : List (List Char)) :
    numbered first (contents ++ more) =
      numbered first contents ++ numbered (first + contents.length) more := by
  rw [numbered, List.zipIdx_append, List.map_append, numbered, numbered]

/-- A line has the number of lines in front of it. -/
theorem exists_of_numbered {first : Nat} {contents : List (List Char)}
    {before after : List SourceLine} {line : SourceLine}
    (division : numbered first contents = before ++ line :: after) :
    ∃ start rest, contents = start ++ line.content :: rest ∧ before = numbered first start ∧
      line.number = first + start.length := by
  induction before generalizing first contents with
  | nil =>
    cases contents with
    | nil => cases division
    | cons content rest =>
      rw [numbered_cons] at division
      cases division
      exact ⟨[], rest, rfl, rfl, rfl⟩
  | cons other before ih =>
    cases contents with
    | nil => cases division
    | cons content rest =>
      rw [numbered_cons, List.cons_append] at division
      obtain ⟨rfl, tail⟩ := List.cons_eq_cons.mp division
      obtain ⟨start, more, rfl, rfl, number⟩ := ih tail
      refine ⟨content :: start, more, rfl, rfl, ?_⟩
      rw [number, List.length_cons]
      omega

theorem SourceLine.trim_text (line : SourceLine) : Text.trim line.text = Text.trim line.content :=
  Text.trim_withoutTerminator line.content

/-- The same line after trimming, that many lines further down. -/
structure SourceLine.Alike (offset : Nat) (line other : SourceLine) : Prop where
  number : other.number = line.number + offset
  trimmed : Text.trim other.content = Text.trim line.content

theorem SourceLine.Alike.opens_eq {offset : Nat} {line other : SourceLine}
    (alike : Alike offset line other) : other.opens = line.opens := by
  rw [opens, opens, alike.trimmed]

theorem SourceLine.Alike.closes_eq {offset : Nat} {line other : SourceLine}
    (alike : Alike offset line other) : other.closes = line.closes := by
  rw [closes, closes, alike.trimmed]

theorem numbered_alike {first offset : Nat} {contents others : List (List Char)}
    (alike : List.Forall₂ (fun content other => Text.trim other = Text.trim content) contents others) :
    List.Forall₂ (SourceLine.Alike offset) (numbered first contents)
      (numbered (first + offset) others) := by
  induction alike generalizing first with
  | nil => exact .nil
  | cons trimmed _ ih =>
    rw [numbered_cons, numbered_cons, Nat.add_right_comm]
    exact .cons ⟨rfl, trimmed⟩ ih

theorem any_closes_of_forall₂ {lines others : List SourceLine}
    (marks : List.Forall₂ (fun line other => other.closes = line.closes) lines others) :
    others.any SourceLine.closes = lines.any SourceLine.closes := by
  induction marks with
  | nil => rfl
  | cons first _ ih => rw [List.any_cons, List.any_cons, first, ih]

/-- Where the same lines of two texts start comments and end them, the lines outside the comments
correspond too. -/
theorem outsideComments_forall₂ {R : SourceLine → SourceLine → Prop} {lines others : List SourceLine}
    (opens : ∀ line other, R line other → other.opens = line.opens)
    (closes : ∀ line other, R line other → other.closes = line.closes)
    (related : List.Forall₂ R lines others) (region : Region) :
    List.Forall₂ R (outsideComments region lines) (outsideComments region others) := by
  induction related generalizing region with
  | nil =>
    cases region <;> exact .nil
  | @cons line other lines others first rest ih =>
    cases region with
    | comment =>
      rw [outsideComments, outsideComments, closes line other first]
      exact ih _
    | statements =>
      rw [outsideComments, outsideComments, opens line other first, any_closes_of_forall₂ (rest.imp closes)]
      split
      · exact .cons first (ih .statements)
      · split
        · exact ih .comment
        · exact .cons first rest

/-- Where the lines of two texts are alike, so are the lines outside their comments. -/
theorem outsideComments_alike {offset : Nat} {lines others : List SourceLine}
    (alike : List.Forall₂ (SourceLine.Alike offset) lines others) (region : Region) :
    List.Forall₂ (SourceLine.Alike offset) (outsideComments region lines) (outsideComments region others) :=
  outsideComments_forall₂ (fun _ _ first => first.opens_eq) (fun _ _ first => first.closes_eq) alike region

theorem outsideComments_statement {line : SourceLine} (statement : line.opens = false)
    (rest : List SourceLine) :
    outsideComments .statements (line :: rest) = line :: outsideComments .statements rest := by
  rw [outsideComments, statement, Bool.not_false, if_pos rfl]

theorem outsideComments_block {line : SourceLine} {rest : List SourceLine}
    (opening : line.opens = true) (closing : rest.any SourceLine.closes = true) :
    outsideComments .statements (line :: rest) = outsideComments .comment rest := by
  rw [outsideComments, opening, closing, if_pos rfl]
  rfl

theorem outsideComments_unclosed {line : SourceLine} {rest : List SourceLine}
    (opening : line.opens = true) (unclosed : rest.any SourceLine.closes = false) :
    outsideComments .statements (line :: rest) = line :: rest := by
  rw [outsideComments, opening, unclosed]
  rfl

/-- Induction over lines in the way in which their comments are left out. -/
@[elab_as_elim]
theorem blockwise {motive : Region → List SourceLine → Prop} (nil : ∀ region, motive region [])
    (comment : ∀ line rest, motive (if line.closes then .statements else .comment) rest →
      motive .comment (line :: rest))
    (statement : ∀ line rest, line.opens = false → motive .statements rest →
      motive .statements (line :: rest))
    (block : ∀ line rest, line.opens = true → rest.any SourceLine.closes = true → motive .comment rest →
      motive .statements (line :: rest))
    (unclosed : ∀ line rest, line.opens = true → rest.any SourceLine.closes = false →
      motive .statements (line :: rest))
    (region : Region) (lines : List SourceLine) : motive region lines := by
  induction lines generalizing region with
  | nil => exact nil region
  | cons line rest ih =>
    cases region with
    | comment => exact comment line rest (ih _)
    | statements =>
      cases opening : line.opens with
      | false => exact statement line rest opening (ih .statements)
      | true =>
        cases closing : rest.any SourceLine.closes with
        | true => exact block line rest opening closing (ih .comment)
        | false => exact unclosed line rest opening closing

/-- Either the first line of a comment ends it, or a later one has to. -/
theorem any_closes_cons_iff {line : SourceLine} {rest : List SourceLine} :
    (line :: rest).any SourceLine.closes = true ↔
      ((if line.closes then Region.statements else .comment) = .comment →
        rest.any SourceLine.closes = true) := by
  rw [List.any_cons]
  cases line.closes with
  | true => exact iff_of_true rfl nofun
  | false => exact ⟨fun later _ => later, fun ends => ends rfl⟩

/-- Comments in front of further lines do not reach into them, if each opening line in front
has its closing line there. -/
theorem outsideComments_append {region : Region} {lines : List SourceLine}
    (ended : region = .comment → lines.any SourceLine.closes = true)
    (kept : ∀ line ∈ outsideComments region lines, line.opens = false)
    (more : List SourceLine) :
    outsideComments region (lines ++ more) =
      outsideComments region lines ++ outsideComments .statements more := by
  induction region, lines using blockwise with
  | nil region =>
    cases region with
    | comment => cases ended rfl
    | statements => rfl
  | comment line rest ih =>
    rw [outsideComments] at kept
    rw [List.cons_append, outsideComments, outsideComments]
    exact ih (any_closes_cons_iff.mp (ended rfl)) kept
  | statement line rest opening ih =>
    rw [outsideComments_statement opening] at kept
    have later := ih nofun fun other member => kept other (List.mem_cons_of_mem line member)
    rw [List.cons_append, outsideComments_statement opening, outsideComments_statement opening, later,
      List.cons_append]
  | block line rest opening closing ih =>
    have reaches : (rest ++ more).any SourceLine.closes = true := by
      rw [List.any_append, closing, Bool.true_or]
    rw [outsideComments_block opening closing] at kept
    rw [List.cons_append, outsideComments_block opening closing, outsideComments_block opening reaches]
    exact ih (fun _ => closing) kept
  | unclosed line rest opening closing =>
    rw [outsideComments_unclosed opening closing] at kept
    have here := kept line List.mem_cons_self
    rw [opening] at here
    cases here

theorem outsideComments_statements_append {lines : List SourceLine}
    (kept : ∀ line ∈ outsideComments .statements lines, line.opens = false) (more : List SourceLine) :
    outsideComments .statements (lines ++ more) =
      outsideComments .statements lines ++ outsideComments .statements more := by
  refine outsideComments_append ?_ kept more
  intro inside
  cases inside

/-- The lines kept in front of a kept line are those of the text in front of it. -/
theorem exists_of_outsideComments {region : Region} {lines before after : List SourceLine}
    {line : SourceLine} (division : outsideComments region lines = before ++ line :: after)
    (kept : ∀ other ∈ before, other.opens = false) :
    ∃ start rest, lines = start ++ line :: rest ∧ outsideComments region start = before ∧
      (region = .comment → start.any SourceLine.closes = true) := by
  induction region, lines using blockwise generalizing before with
  | nil region =>
    have empty : outsideComments region [] = [] := by cases region <;> rfl
    rw [empty] at division
    cases before <;> cases division
  | comment head rest ih =>
    rw [outsideComments] at division
    obtain ⟨start, more, rfl, same, ended⟩ := ih division kept
    refine ⟨head :: start, more, rfl, ?_, fun _ => any_closes_cons_iff.mpr ended⟩
    rw [outsideComments]
    exact same
  | statement head rest opening ih =>
    rw [outsideComments_statement opening] at division
    cases before with
    | nil =>
      obtain ⟨rfl, _⟩ := List.cons_eq_cons.mp division
      exact ⟨[], rest, rfl, rfl, nofun⟩
    | cons other before =>
      obtain ⟨rfl, tail⟩ := List.cons_eq_cons.mp division
      obtain ⟨start, more, rfl, same, _⟩ :=
        ih tail (fun other member => kept other (List.mem_cons_of_mem head member))
      exact ⟨head :: start, more, rfl, by rw [outsideComments_statement opening, same], nofun⟩
  | block head rest opening closing ih =>
    rw [outsideComments_block opening closing] at division
    obtain ⟨start, more, rfl, same, ended⟩ := ih division kept
    exact ⟨head :: start, more, rfl, by rw [outsideComments_block opening (ended rfl), same], nofun⟩
  | unclosed head rest opening closing =>
    -- Nothing is left out behind an opening line without end, but it is kept itself.
    rw [outsideComments_unclosed opening closing] at division
    cases before with
    | nil =>
      obtain ⟨rfl, _⟩ := List.cons_eq_cons.mp division
      exact ⟨[], rest, rfl, rfl, nofun⟩
    | cons other before =>
      obtain ⟨rfl, _⟩ := List.cons_eq_cons.mp division
      have here := kept head List.mem_cons_self
      rw [opening] at here
      cases here

theorem contents_numbered (first : Nat) (contents : List (List Char)) :
    (numbered first contents).map SourceLine.content = contents := by
  induction contents generalizing first with
  | nil => rfl
  | cons content rest ih => rw [numbered_cons, List.map_cons, ih]

theorem numbers_numbered (first : Nat) (contents : List (List Char)) :
    (numbered first contents).map SourceLine.number = List.range' first contents.length := by
  induction contents generalizing first with
  | nil => rfl
  | cons content rest ih => rw [numbered_cons, List.map_cons, ih, List.length_cons, List.range'_succ]

theorem numbered_pairwise (first : Nat) (contents : List (List Char)) :
    (numbered first contents).Pairwise fun line later => line.number < later.number := by
  have increasing : (List.range' first contents.length).Pairwise (· < ·) := List.pairwise_lt_range'
  rw [← numbers_numbered] at increasing
  exact List.pairwise_map.mp increasing

theorem outsideComments_sublist (region : Region) (lines : List SourceLine) :
    (outsideComments region lines).Sublist lines := by
  induction region, lines using blockwise with
  | nil region => cases region <;> exact .slnil
  | comment line rest ih =>
    rw [outsideComments]
    exact ih.cons line
  | statement line rest opening ih =>
    rw [outsideComments_statement opening]
    exact ih.cons_cons line
  | block line rest opening closing ih =>
    rw [outsideComments_block opening closing]
    exact ih.cons line
  | unclosed line rest opening closing =>
    rw [outsideComments_unclosed opening closing]

theorem contents_logicalLines_sublist (text : String) :
    ((logicalLines text).map SourceLine.content).Sublist (Text.lines text.toList) := by
  have kept := (outsideComments_sublist .statements (sourceLines text.toList)).map SourceLine.content
  rw [sourceLines_eq_numbered, contents_numbered] at kept
  exact kept

theorem logicalLines_pairwise (text : String) :
    (logicalLines text).Pairwise fun line later => line.number < later.number :=
  (numbered_pairwise 1 (Text.lines text.toList)).sublist (outsideComments_sublist .statements _)

/-- The lines kept in front of a kept line are those with lower numbers. -/
theorem filter_logicalLines {text : String} {before after : List SourceLine} {line : SourceLine}
    (division : logicalLines text = before ++ line :: after) :
    (logicalLines text).filter (·.number < line.number) = before := by
  have increasing := logicalLines_pairwise text
  rw [division] at increasing ⊢
  obtain ⟨_, behind, across⟩ := List.pairwise_append.mp increasing
  have lower : ∀ other ∈ before, decide (other.number < line.number) = true := by
    intro other member
    exact decide_eq_true (across other member line List.mem_cons_self)
  have higher : ∀ other ∈ line :: after, ¬ decide (other.number < line.number) = true := by
    intro other member less
    have number := of_decide_eq_true less
    rcases List.mem_cons.mp member with rfl | later
    · omega
    · have above := (List.pairwise_cons.mp behind).1 other later
      omega
  rw [List.filter_append, List.filter_eq_self.mpr lower, List.filter_eq_nil_iff.mpr higher,
    List.append_nil]

end Settings
