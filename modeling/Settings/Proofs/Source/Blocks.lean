import Mathlib.Data.Nat.Find
import Settings.Proofs.Source.Comments

namespace Settings

variable {lines : List SourceLine}

/-- Line `n` could open a comment block. -/
def Opening (lines : List SourceLine) (n : Nat) : Prop :=
  ∃ line ∈ lines, line.number = n ∧ line.opens = true

/-- Line `n` could end a comment block. -/
def Closing (lines : List SourceLine) (n : Nat) : Prop :=
  ∃ line ∈ lines, line.number = n ∧ line.closes = true

/-- A block that opens at line `first` ends at line `last`, the first closing line behind it. -/
structure EndsAt (lines : List SourceLine) (first last : Nat) : Prop where
  behind : first < last
  closing : Closing lines last
  nearest : ∀ n, first < n → n < last → ¬ Closing lines n

/-- A block opens at an opening line with a closing line somewhere behind it, unless the line is
inside a block that opens in front of it. -/
def OpensBlock (lines : List SourceLine) (n : Nat) : Prop :=
  Opening lines n ∧ (∃ last, n < last ∧ Closing lines last) ∧
    ∀ first, first < n → OpensBlock lines first → ∀ last, EndsAt lines first last → last < n
termination_by n

/-- Line `n` belongs to a comment block, be it as its first or last line. -/
def InBlock (lines : List SourceLine) (n : Nat) : Prop :=
  ∃ first last, OpensBlock lines first ∧ EndsAt lines first last ∧ first ≤ n ∧ n ≤ last

noncomputable instance (lines : List SourceLine) (n : Nat) : Decidable (InBlock lines n) :=
  Classical.propDecidable _

theorem OpensBlock.opening {n : Nat} (opens : OpensBlock lines n) : Opening lines n := by
  rw [OpensBlock] at opens
  exact opens.1

theorem OpensBlock.lt_of_endsAt {first last n : Nat} (opens : OpensBlock lines n)
    (earlier : OpensBlock lines first) (ends : EndsAt lines first last) (before : first < n) :
    last < n := by
  rw [OpensBlock] at opens
  exact opens.2.2 first before earlier last ends

theorem exists_endsAt {first last : Nat} (behind : first < last) (closing : Closing lines last) :
    ∃ nearest, EndsAt lines first nearest := by
  classical
  have later : ∃ n, first < n ∧ Closing lines n := ⟨last, behind, closing⟩
  obtain ⟨after, closes⟩ := Nat.find_spec later
  refine ⟨Nat.find later, after, closes, ?_⟩
  intro n lower upper inside
  exact Nat.find_min later upper ⟨lower, inside⟩

theorem OpensBlock.exists_endsAt {n : Nat} (opens : OpensBlock lines n) :
    ∃ last, EndsAt lines n last := by
  rw [OpensBlock] at opens
  obtain ⟨last, behind, closing⟩ := opens.2.1
  exact Settings.exists_endsAt behind closing

theorem EndsAt.unique {first last other : Nat} (ends : EndsAt lines first last)
    (also : EndsAt lines first other) : last = other := by
  rcases Nat.lt_trichotomy last other with less | same | greater
  · exact absurd ends.closing (also.nearest last ends.behind less)
  · exact same
  · exact absurd also.closing (ends.nearest other also.behind greater)

/-- Every block that opens in front of line `n` also ends in front of it. -/
def Between (lines : List SourceLine) (n : Nat) : Prop :=
  ∀ first last, OpensBlock lines first → EndsAt lines first last → first < n → last < n

/-- A block that opens in front of line `n` has not ended there. -/
def Within (lines : List SourceLine) (n : Nat) : Prop :=
  ∃ first, OpensBlock lines first ∧ first < n ∧
    ∀ other, first < other → other < n → ¬ Closing lines other

theorem Between.not_inBlock {n : Nat} (between : Between lines n)
    (plain : ¬ OpensBlock lines n) : ¬ InBlock lines n := by
  rintro ⟨first, last, opens, ends, lower, upper⟩
  rcases Nat.lt_or_eq_of_le lower with before | rfl
  · have past := between first last opens ends before
    omega
  · exact plain opens

theorem Between.succ {n : Nat} (between : Between lines n) (plain : ¬ OpensBlock lines n) :
    Between lines (n + 1) := by
  intro first last opens ends before
  rcases Nat.lt_or_eq_of_le (Nat.le_of_lt_succ before) with earlier | rfl
  · have past := between first last opens ends earlier
    omega
  · exact absurd opens plain

theorem Between.opensBlock {n last : Nat} (between : Between lines n) (opening : Opening lines n)
    (behind : n < last) (closing : Closing lines last) : OpensBlock lines n := by
  rw [OpensBlock]
  refine ⟨opening, ⟨last, behind, closing⟩, ?_⟩
  intro first before opens last ends
  exact between first last opens ends before

theorem OpensBlock.inBlock {n : Nat} (opens : OpensBlock lines n) : InBlock lines n := by
  obtain ⟨last, ends⟩ := opens.exists_endsAt
  exact ⟨n, last, opens, ends, Nat.le_refl n, ends.behind.le⟩

theorem OpensBlock.within_succ {n : Nat} (opens : OpensBlock lines n) : Within lines (n + 1) := by
  refine ⟨n, opens, Nat.lt_succ_self n, ?_⟩
  intro other lower upper
  omega

theorem Within.inBlock {n : Nat} (within : Within lines n) : InBlock lines n := by
  obtain ⟨first, opens, before, unclosed⟩ := within
  obtain ⟨last, ends⟩ := opens.exists_endsAt
  refine ⟨first, last, opens, ends, before.le, ?_⟩
  by_contra past
  exact unclosed last ends.behind (by omega) ends.closing

theorem Within.succ {n : Nat} (within : Within lines n) (unclosed : ¬ Closing lines n) :
    Within lines (n + 1) := by
  obtain ⟨first, opens, before, earlier⟩ := within
  refine ⟨first, opens, by omega, ?_⟩
  intro other lower upper
  rcases Nat.lt_or_eq_of_le (Nat.le_of_lt_succ upper) with less | rfl
  · exact earlier other lower less
  · exact unclosed

/-- Behind a closing line no block is open: the one around it ends there, and none opens inside
of that. -/
theorem Within.between_succ {n : Nat} (within : Within lines n) (closing : Closing lines n) :
    Between lines (n + 1) := by
  obtain ⟨around, opens, before, unclosed⟩ := within
  have ended : EndsAt lines around n := ⟨before, closing, unclosed⟩
  intro first last opensFirst ends upper
  rcases Nat.lt_trichotomy first around with less | rfl | greater
  · have past := opens.lt_of_endsAt opensFirst ends less
    omega
  · rw [ends.unique ended]
    exact Nat.lt_succ_self n
  · have past := opensFirst.lt_of_endsAt opens ended greater
    omega

/-- Of the lines of a text, those from line `n` on have the given contents. -/
def Remaining (lines : List SourceLine) (n : Nat) (contents : List (List Char)) : Prop :=
  ∀ line, line ∈ numbered n contents ↔ line ∈ lines ∧ n ≤ line.number

theorem le_number_of_mem {first : Nat} {contents : List (List Char)} {line : SourceLine}
    (member : line ∈ numbered first contents) : first ≤ line.number := by
  induction contents generalizing first with
  | nil => cases member
  | cons content rest ih =>
    rw [numbered_cons] at member
    rcases List.mem_cons.mp member with rfl | behind
    · exact Nat.le_refl first
    · have later := ih behind
      omega

theorem remaining_numbered (n : Nat) (contents : List (List Char)) :
    Remaining (numbered n contents) n contents :=
  fun _ => ⟨fun member => ⟨member, le_number_of_mem member⟩, fun found => found.1⟩

section Remaining

variable {n : Nat} {content : List Char} {rest : List (List Char)}

theorem Remaining.eq_head (remaining : Remaining lines n (content :: rest)) {line : SourceLine}
    (member : line ∈ lines) (number : line.number = n) : line = ⟨n, content⟩ := by
  have found := (remaining line).mpr ⟨member, number.ge⟩
  rw [numbered_cons] at found
  rcases List.mem_cons.mp found with same | behind
  · exact same
  · have later := le_number_of_mem behind
    omega

theorem Remaining.head_mem (remaining : Remaining lines n (content :: rest)) :
    ⟨n, content⟩ ∈ lines :=
  ((remaining ⟨n, content⟩).mp List.mem_cons_self).1

theorem Remaining.tail (remaining : Remaining lines n (content :: rest)) :
    Remaining lines (n + 1) rest := by
  intro line
  constructor
  · intro member
    exact ⟨((remaining line).mp (List.mem_cons_of_mem _ member)).1, le_number_of_mem member⟩
  · rintro ⟨member, later⟩
    have found := (remaining line).mpr ⟨member, by omega⟩
    rw [numbered_cons] at found
    rcases List.mem_cons.mp found with rfl | behind
    · exact absurd later (Nat.not_succ_le_self n)
    · exact behind

theorem Remaining.opening_iff (remaining : Remaining lines n (content :: rest)) :
    Opening lines n ↔ SourceLine.opens ⟨n, content⟩ = true := by
  constructor
  · rintro ⟨line, member, number, opens⟩
    rw [← remaining.eq_head member number]
    exact opens
  · intro opens
    exact ⟨_, remaining.head_mem, rfl, opens⟩

theorem Remaining.closing_iff (remaining : Remaining lines n (content :: rest)) :
    Closing lines n ↔ SourceLine.closes ⟨n, content⟩ = true := by
  constructor
  · rintro ⟨line, member, number, closes⟩
    rw [← remaining.eq_head member number]
    exact closes
  · intro closes
    exact ⟨_, remaining.head_mem, rfl, closes⟩

theorem Remaining.exists_closing_iff (remaining : Remaining lines n (content :: rest)) :
    (∃ last, n < last ∧ Closing lines last) ↔
      (numbered (n + 1) rest).any SourceLine.closes = true := by
  rw [List.any_eq_true]
  constructor
  · rintro ⟨last, behind, line, member, rfl, closes⟩
    exact ⟨line, (remaining.tail line).mpr ⟨member, behind⟩, closes⟩
  · rintro ⟨line, member, closes⟩
    obtain ⟨inside, behind⟩ := (remaining.tail line).mp member
    exact ⟨line.number, behind, line, inside, rfl, closes⟩

end Remaining

/-- Where no line closes, no line is in a block, for the blocks in front have ended. -/
theorem Between.filter_of_unclosed {n : Nat} {contents : List (List Char)}
    (between : Between lines n) (unclosed : ¬ ∃ last, n < last ∧ Closing lines last) :
    (numbered n contents).filter (fun line => ¬ InBlock lines line.number) = numbered n contents := by
  refine List.filter_eq_self.mpr ?_
  intro line member
  refine decide_eq_true ?_
  rintro ⟨first, last, opens, ends, _, upper⟩
  have later := le_number_of_mem member
  rcases Nat.lt_or_ge first n with before | behind
  · have past := between first last opens ends before
    omega
  · exact unclosed ⟨last, Nat.lt_of_le_of_lt behind ends.behind, ends.closing⟩

/-- From any line on, what is kept are the lines in no block, provided that the region is the one
which the blocks in front leave. -/
theorem outsideComments_eq_filter {n : Nat} {contents : List (List Char)} {region : Region}
    (remaining : Remaining lines n contents)
    (state : match region with
      | .statements => Between lines n
      | .comment => Within lines n) :
    outsideComments region (numbered n contents) =
      (numbered n contents).filter fun line => ¬ InBlock lines line.number := by
  induction contents generalizing n region with
  | nil => cases region <;> rfl
  | cons content rest ih =>
    rw [numbered_cons]
    cases region with
    | comment =>
      rw [List.filter_cons_of_neg (by simpa using Within.inBlock state), outsideComments]
      cases closes : SourceLine.closes ⟨n, content⟩ with
      | true => exact ih remaining.tail (state.between_succ (remaining.closing_iff.mpr closes))
      | false =>
        have unclosed : ¬ Closing lines n := by simp [remaining.closing_iff, closes]
        exact ih remaining.tail (state.succ unclosed)
    | statements =>
      cases opens : SourceLine.opens ⟨n, content⟩ with
      | false =>
        have plain : ¬ OpensBlock lines n := by
          intro opensBlock
          have opening := remaining.opening_iff.mp opensBlock.opening
          rw [opens] at opening
          cases opening
        rw [outsideComments_statement opens,
          List.filter_cons_of_pos (by simpa using Between.not_inBlock state plain)]
        exact congrArg _ (ih remaining.tail (state.succ plain))
      | true =>
        cases closes : (numbered (n + 1) rest).any SourceLine.closes with
        | true =>
          obtain ⟨last, behind, closing⟩ := remaining.exists_closing_iff.mpr closes
          have block := state.opensBlock (remaining.opening_iff.mpr opens) behind closing
          rw [outsideComments_block opens closes,
            List.filter_cons_of_neg (by simpa using block.inBlock)]
          exact ih remaining.tail block.within_succ
        | false =>
          have unclosed : ¬ ∃ last, n < last ∧ Closing lines last := by
            rw [remaining.exists_closing_iff, closes]
            exact Bool.false_ne_true
          rw [outsideComments_unclosed opens closes, ← numbered_cons]
          exact (state.filter_of_unclosed unclosed).symm

theorem between_one (contents : List (List Char)) : Between (numbered 1 contents) 1 := by
  intro first last opens _ before
  obtain ⟨line, member, rfl, _⟩ := opens.opening
  have later := le_number_of_mem member
  omega

theorem logicalLines_eq_filter (text : String) :
    logicalLines text =
      (sourceLines text.toList).filter fun line => ¬ InBlock (sourceLines text.toList) line.number :=
  outsideComments_eq_filter (remaining_numbered 1 (Text.lines text.toList))
    (between_one (Text.lines text.toList))

/-- The lines that are left if every opening line starts a search for its closing line. -/
def searchingAnew : List SourceLine → List SourceLine
  | [] => []
  | line :: rest =>
    if line.opens then
      match rest.findIdx? SourceLine.closes with
      | some offset => searchingAnew (rest.drop (offset + 1))
      | none => line :: searchingAnew rest
    else line :: searchingAnew rest
termination_by lines => lines.length

theorem outsideComments_comment_of_findIdx? {rest : List SourceLine} {offset : Nat}
    (found : rest.findIdx? SourceLine.closes = some offset) :
    outsideComments .comment rest = outsideComments .statements (rest.drop (offset + 1)) := by
  induction rest generalizing offset with
  | nil => cases found
  | cons line rest ih =>
    rw [List.findIdx?_cons] at found
    rw [outsideComments]
    cases closes : line.closes with
    | true =>
      rw [closes] at found
      cases found
      rfl
    | false =>
      rw [closes] at found
      obtain ⟨before, earlier, rfl⟩ := Option.map_eq_some_iff.mp found
      exact ih earlier

theorem searchingAnew_of_unclosed {rest : List SourceLine}
    (unclosed : rest.any SourceLine.closes = false) : searchingAnew rest = rest := by
  induction rest with
  | nil => rw [searchingAnew]
  | cons line rest ih =>
    rw [List.any_cons, Bool.or_eq_false_iff] at unclosed
    have none : rest.findIdx? SourceLine.closes = none := by
      rw [List.findIdx?_eq_none_iff]
      intro other member
      exact Bool.eq_false_iff.mpr (List.any_eq_false.mp unclosed.2 other member)
    rw [searchingAnew, none, ih unclosed.2, ite_self]

/-- One search without success makes all later ones needless. -/
theorem searchingAnew_eq_outsideComments (lines : List SourceLine) :
    searchingAnew lines = outsideComments .statements lines := by
  fun_induction searchingAnew lines with
  | case1 => rfl
  | case2 line rest opens offset found ih =>
    have closes : rest.any SourceLine.closes = true := by
      rw [← List.findIdx?_isSome, found]
      rfl
    rw [outsideComments_block opens closes, outsideComments_comment_of_findIdx? found, ih]
  | case3 line rest opens none _ =>
    have unclosed : rest.any SourceLine.closes = false := by
      rw [← List.findIdx?_isSome, none]
      rfl
    rw [outsideComments_unclosed opens unclosed, searchingAnew_of_unclosed unclosed]
  | case4 line rest statement ih =>
    rw [outsideComments_statement (Bool.eq_false_iff.mpr statement), ih]

/-- What is left of a text without its comments are the lines in no block, with the numbers and the
terminators that they have in the text. A search for the closing line at every opening line leaves
the same. -/
theorem logicalLines_eq_outside_blocks (text : String) :
    Text.Divided text.toList ((sourceLines text.toList).map SourceLine.content) ∧
      (sourceLines text.toList).map SourceLine.number =
        List.range' 1 (sourceLines text.toList).length ∧
      logicalLines text =
        (sourceLines text.toList).filter (fun line => ¬ InBlock (sourceLines text.toList) line.number) ∧
      (logicalLines text).Pairwise (fun line later => line.number < later.number) ∧
      (∀ line ∈ logicalLines text, ∃ unended, Text.Without '\n' line.content unended ∧
        Text.Without '\r' unended line.text) ∧
      stripComments text = String.ofList
        (((sourceLines text.toList).filter fun line =>
          ¬ InBlock (sourceLines text.toList) line.number).flatMap SourceLine.content) ∧
      logicalLines text = searchingAnew (sourceLines text.toList) := by
  refine ⟨?_, ?_, logicalLines_eq_filter text, logicalLines_pairwise text, ?_, ?_, ?_⟩
  · rw [sourceLines_eq_numbered, contents_numbered]
    exact Text.divided_lines text.toList
  · rw [← List.length_map SourceLine.content, sourceLines_eq_numbered, contents_numbered,
      numbers_numbered]
  · intro line _
    exact ⟨_, Text.without_dropFinal '\n' line.content, Text.without_dropFinal '\r' _⟩
  · rw [stripComments, logicalLines_eq_filter]
  · exact (searchingAnew_eq_outsideComments (sourceLines text.toList)).symm

end Settings
