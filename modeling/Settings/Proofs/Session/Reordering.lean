import Settings.Proofs.Literal.Parts
import Settings.Proofs.Session.Trace
import Settings.Proofs.Source.Stripping
import Settings.Proofs.Table.Equality
import Settings.Proofs.Value.Equality

namespace Settings

/-- Two lines whose order matters: entries of one key, declarations of one name, or a declaration of a name
and an entry that refers to it. -/
inductive Dependent (line other : List Char) : Prop
  | entries {key : String} {text otherText : List Char} : Statement.entered? line = some (key, text) →
      Statement.entered? other = some (key, otherText) → Dependent line other
  | declarations {name : String} {text otherText : List Char} : Statement.declared? line = some (name, text) →
      Statement.declared? other = some (name, otherText) → Dependent line other
  | referenceAfter {key name : String} {text reference : List Char} :
      Statement.declared? line = some (name, text) → Statement.entered? other = some (key, reference) →
      Statement.referent? reference = some name → Dependent line other
  | referenceBefore {key name : String} {text reference : List Char} :
      Statement.entered? line = some (key, reference) → Statement.referent? reference = some name →
      Statement.declared? other = some (name, text) → Dependent line other

theorem Dependent.symm {line other : List Char} (dependent : Dependent line other) : Dependent other line := by
  cases dependent with
  | entries first second => exact .entries second first
  | declarations first second => exact .declarations second first
  | referenceAfter declares enters refers => exact .referenceBefore enters refers declares
  | referenceBefore enters refers declares => exact .referenceAfter declares enters refers

theorem dependent_iff {line other : List Char} : Dependent line other ↔
    (Statement.entered? line).any (fun entry =>
      (Statement.entered? other).any fun entry' => entry.1 = entry'.1) ∨
    (Statement.declared? line).any (fun constant =>
      (Statement.declared? other).any fun constant' => constant.1 = constant'.1) ∨
    (Statement.declared? line).any (fun constant =>
      (Statement.entered? other).any fun entry => Statement.referent? entry.2 = some constant.1) ∨
    (Statement.entered? line).any (fun entry =>
      (Statement.declared? other).any fun constant => Statement.referent? entry.2 = some constant.1) := by
  simp only [Option.any_eq_true, decide_eq_true_eq]
  constructor
  · intro dependent
    cases dependent with
    | entries first second => exact .inl ⟨_, first, _, second, rfl⟩
    | declarations first second => exact .inr (.inl ⟨_, first, _, second, rfl⟩)
    | referenceAfter declares enters refers => exact .inr (.inr (.inl ⟨_, declares, _, enters, refers⟩))
    | referenceBefore enters refers declares => exact .inr (.inr (.inr ⟨_, enters, _, declares, refers⟩))
  · rintro (⟨⟨key, text⟩, first, ⟨_, _⟩, second, rfl⟩ | ⟨⟨name, text⟩, first, ⟨_, _⟩, second, rfl⟩ |
      ⟨_, declares, _, enters, refers⟩ | ⟨_, enters, _, declares, refers⟩)
    · exact .entries first second
    · exact .declarations first second
    · exact .referenceAfter declares enters refers
    · exact .referenceBefore enters refers declares

instance (line other : List Char) : Decidable (Dependent line other) :=
  decidable_of_iff _ dependent_iff.symm

/-- A declaration is nothing to a value text that does not refer to its name. -/
theorem Statement.valueWith_insert {constants : Constants} {name : String} {v : Value} {text : List Char}
    (other : referent? text ≠ some name) :
    valueWith (constants.insert name v).get? text = valueWith constants.get? text := by
  rw [valueWith, valueWith]
  cases refers : referent? text with
  | none => rfl
  | some used =>
    have apart : name ≠ used := by
      rintro rfl
      exact other refers
    exact (constants.get?_insert name used v).trans (if_neg apart)

namespace Bindings

/-- The bindings after lines, or the first fault. -/
def readAll (bindings : Bindings) (lines : List (List Char)) : Except Fault Bindings :=
  lines.foldlM readLine bindings

/-- The same names with the same values, in whatever order. -/
structure Agree (left right : Bindings) : Prop where
  constants : left.constants.get? = right.constants.get?
  document : left.document.get? = right.document.get?

variable {start middle final left right next : Bindings} {line other : List Char}

theorem readAll_cons_eq_ok_iff {rest : List (List Char)} :
    start.readAll (line :: rest) = .ok final ↔
      ∃ next, start.readLine line = .ok next ∧ next.readAll rest = .ok final := by
  rw [readAll, List.foldlM_cons]
  cases start.readLine line with
  | error fault => exact iff_of_false nofun nofun
  | ok next =>
    refine ⟨fun later => ⟨next, rfl, later⟩, ?_⟩
    rintro ⟨_, ⟨⟩, later⟩
    exact later

theorem Agree.refl (bindings : Bindings) : bindings.Agree bindings :=
  ⟨rfl, rfl⟩

theorem Agree.trans (first : left.Agree middle) (second : middle.Agree right) : left.Agree right :=
  ⟨first.constants.trans second.constants, first.document.trans second.document⟩

/-- A line does the same to bindings that agree. -/
theorem Agree.exists_readLine (agree : left.Agree right) (accepted : left.readLine line = .ok next) :
    ∃ last, right.readLine line = .ok last ∧ next.Agree last := by
  rcases readLine_eq_ok_cases accepted with ⟨blank, rfl⟩ | ⟨name, text, v, declares, value, rfl⟩ |
    ⟨key, text, v, enters, value, rfl⟩
  · exact ⟨right, readLine_of_blank blank right, agree⟩
  · exact ⟨_, readLine_of_declared? declares value right,
      Table.get?_insert_congr agree.constants name v, agree.document⟩
  · rw [agree.constants] at value
    exact ⟨_, readLine_of_entered? enters value, agree.constants,
      Table.get?_insert_congr agree.document key v⟩

theorem Agree.exists_readAll {lines : List (List Char)} (agree : left.Agree right)
    (accepted : left.readAll lines = .ok next) : ∃ last, right.readAll lines = .ok last ∧ next.Agree last := by
  induction lines generalizing left right with
  | nil =>
    cases accepted
    exact ⟨right, rfl, agree⟩
  | cons line rest ih =>
    obtain ⟨between, read, later⟩ := readAll_cons_eq_ok_iff.mp accepted
    obtain ⟨also, readAlso, agree⟩ := agree.exists_readLine read
    obtain ⟨last, laterAlso, agree⟩ := ih agree later
    exact ⟨last, readAll_cons_eq_ok_iff.mpr ⟨also, readAlso, laterAlso⟩, agree⟩

/-- Two lines one after the other, if they are independent, can change places. -/
theorem exists_readLine_swap (independent : ¬ Dependent line other) (first : start.readLine line = .ok middle)
    (second : middle.readLine other = .ok final) :
    ∃ between last, start.readLine other = .ok between ∧ between.readLine line = .ok last ∧
      final.Agree last := by
  rcases readLine_eq_ok_cases first with ⟨blank, rfl⟩ | ⟨name, text, v, declares, value, rfl⟩ |
    ⟨key, text, v, enters, value, rfl⟩
  · exact ⟨final, final, second, readLine_of_blank blank final, .refl final⟩
  · rcases readLine_eq_ok_cases second with ⟨blank, rfl⟩ | ⟨name', text', w, declares', value', rfl⟩ |
      ⟨key', text', w, enters', value', rfl⟩
    · exact ⟨start, _, readLine_of_blank blank start, first, .refl _⟩
    · have apart : name ≠ name' := by
        rintro rfl
        exact independent (.declarations declares declares')
      exact ⟨_, _, readLine_of_declared? declares' value' start, readLine_of_declared? declares value _,
        Table.get?_insert_comm start.constants apart v w, rfl⟩
    · have unused : Statement.referent? text' ≠ some name :=
        fun refers => independent (.referenceAfter declares enters' refers)
      rw [Statement.valueWith_insert unused] at value'
      exact ⟨_, _, readLine_of_entered? enters' value', readLine_of_declared? declares value _, .refl _⟩
  · rcases readLine_eq_ok_cases second with ⟨blank, rfl⟩ | ⟨name', text', w, declares', value', rfl⟩ |
      ⟨key', text', w, enters', value', rfl⟩
    · exact ⟨start, _, readLine_of_blank blank start, first, .refl _⟩
    · have unused : Statement.referent? text ≠ some name' :=
        fun refers => independent (.referenceBefore enters refers declares')
      rw [← Statement.valueWith_insert unused] at value
      exact ⟨_, _, readLine_of_declared? declares' value' start, readLine_of_entered? enters value, .refl _⟩
    · have apart : key ≠ key' := by
        rintro rfl
        exact independent (.entries enters enters')
      exact ⟨_, _, readLine_of_entered? enters' value', readLine_of_entered? enters value,
        rfl, Table.get?_insert_comm start.document apart v w⟩

/-- A line can be read in front of lines that it does not depend on. -/
theorem exists_readAll_front {before after : List (List Char)}
    (independent : ∀ earlier ∈ before, ¬ Dependent earlier line)
    (succeeded : start.readAll (before ++ line :: after) = .ok final) :
    ∃ last, start.readAll (line :: (before ++ after)) = .ok last ∧ final.Agree last := by
  induction before generalizing start with
  | nil => exact ⟨final, succeeded, .refl final⟩
  | cons earlier before ih =>
    obtain ⟨apart, rest⟩ := List.forall_mem_cons.mp independent
    obtain ⟨second, read, later⟩ := readAll_cons_eq_ok_iff.mp succeeded
    obtain ⟨last, moved, agree⟩ := ih rest later
    obtain ⟨third, next, onward⟩ := readAll_cons_eq_ok_iff.mp moved
    obtain ⟨between, swapped, front, back, agreeSwapped⟩ := exists_readLine_swap apart read next
    obtain ⟨also, onwardAlso, agreeLast⟩ := agreeSwapped.exists_readAll onward
    refine ⟨also, ?_, agree.trans agreeLast⟩
    exact readAll_cons_eq_ok_iff.mpr ⟨between, front, readAll_cons_eq_ok_iff.mpr ⟨swapped, back, onwardAlso⟩⟩

/-- Lines can be read in any order that keeps the order of those that depend on each other. -/
theorem exists_readAll_reordered {ι : Type} [LinearOrder ι] (content : ι → List Char) {places order : List ι}
    (sorted : places.Pairwise (· < ·)) (perm : order.Perm places)
    (kept : order.Pairwise fun i j => Dependent (content i) (content j) → i < j)
    (succeeded : start.readAll (places.map content) = .ok final) :
    ∃ last, start.readAll (order.map content) = .ok last ∧ final.Agree last := by
  induction order generalizing places start final with
  | nil =>
    rw [perm.symm.eq_nil] at succeeded
    exact ⟨final, succeeded, .refl final⟩
  | cons place order ih =>
    obtain ⟨before, after, rfl⟩ := List.append_of_mem (perm.mem_iff.mp List.mem_cons_self)
    obtain ⟨first, later⟩ := List.pairwise_cons.mp kept
    have remaining : order.Perm (before ++ after) := (perm.trans List.perm_middle).cons_inv
    obtain ⟨_, _, across⟩ := List.pairwise_append.mp sorted
    have independent : ∀ earlier ∈ before.map content, ¬ Dependent earlier (content place) := by
      intro earlier member dependent
      obtain ⟨i, inside, rfl⟩ := List.mem_map.mp member
      have less := across i inside place List.mem_cons_self
      have taken := first i (remaining.mem_iff.mpr (List.mem_append_left after inside)) dependent.symm
      exact lt_asymm less taken
    rw [List.map_append, List.map_cons] at succeeded
    obtain ⟨between, moved, agree⟩ := exists_readAll_front independent succeeded
    obtain ⟨next, read, onward⟩ := readAll_cons_eq_ok_iff.mp moved
    rw [← List.map_append] at onward
    have fewer : (before ++ after).Sublist (before ++ place :: after) :=
      (List.sublist_cons_self place after).append_left before
    obtain ⟨last, others, agreeLast⟩ := ih (sorted.sublist fewer) remaining later onward
    exact ⟨last, readAll_cons_eq_ok_iff.mpr ⟨next, read, others⟩, agree.trans agreeLast⟩

theorem readAll_congr {lines others : List (List Char)}
    (alike : List.Forall₂ (fun line other => Text.trim line = Text.trim other) lines others)
    (bindings : Bindings) : bindings.readAll lines = bindings.readAll others := by
  induction alike generalizing bindings with
  | nil => rfl
  | cons first _ ih =>
    rw [readAll, readAll, List.foldlM_cons, List.foldlM_cons, readLine_congr first]
    exact bind_congr ih

theorem readAll_append_blank (bindings : Bindings) (lines : List (List Char)) :
    bindings.readAll (lines ++ [[]]) = bindings.readAll lines := by
  have blank (bindings : Bindings) : List.foldlM readLine bindings [[]] = pure bindings := by
    rw [List.foldlM_cons, readLine_of_blank rfl]
    rfl
  rw [readAll, List.foldlM_append, funext blank, bind_pure, readAll]

theorem readLines_eq_ok_iff {lines : List SourceLine} :
    start.readLines lines = (final, none) ↔ start.readAll (lines.map SourceLine.text) = .ok final := by
  induction lines generalizing start with
  | nil =>
    rw [readLines, List.map_nil, Prod.mk.injEq]
    exact ⟨fun same => congrArg Except.ok same.1, fun same => ⟨Except.ok.inj same, rfl⟩⟩
  | cons line rest ih =>
    rw [List.map_cons, readAll_cons_eq_ok_iff, readLines]
    cases start.readLine line.text with
    | error fault =>
      constructor
      · rintro ⟨⟩
      · rintro ⟨_, ⟨⟩, _⟩
    | ok next =>
      refine ⟨fun later => ⟨next, rfl, ih.mp later⟩, ?_⟩
      rintro ⟨_, ⟨⟩, later⟩
      exact ih.mpr later

/-- A text of joined lines is read as the lines are, if none of them can open a comment. -/
theorem readLines_joined {lines : List String} (whole : ∀ line ∈ lines, '\n' ∉ line.toList)
    (plain : ∀ line ∈ lines, Text.trim line.toList ≠ "=begin".toList) :
    start.readLines (logicalLines ("\n".intercalate lines)) = (final, none) ↔
      start.readAll (lines.map String.toList) = .ok final := by
  have absent : ∀ content ∈ lines.map String.toList, '\n' ∉ content := List.forall_mem_map.mpr whole
  obtain ⟨lost, empty, alike⟩ := Text.exists_lines_intercalate absent
  have characters : ("\n".intercalate lines).toList = ['\n'].intercalate (lines.map String.toList) :=
    String.toList_intercalate
  rw [← characters] at alike
  have settled : Settled ((sourceLines ("\n".intercalate lines).toList).map SourceLine.content) := by
    refine List.pairwise_of_forall_mem_list ?_
    intro content member _ _ opens
    rw [sourceLines_eq_numbered, contents_numbered] at member
    obtain ⟨_, inside, same⟩ := exists_right_of_mem alike (List.mem_append_left lost member)
    obtain ⟨line, given, rfl⟩ := List.mem_map.mp inside
    exact absurd (same.symm.trans opens) (plain line given)
  have texts : (sourceLines ("\n".intercalate lines).toList).map SourceLine.text =
      (Text.lines ("\n".intercalate lines).toList).map Text.withoutTerminator := by
    rw [← contents_numbered 1 (Text.lines _), ← sourceLines_eq_numbered, List.map_map]
    rfl
  have shown : start.readAll ((Text.lines ("\n".intercalate lines).toList).map Text.withoutTerminator) =
      start.readAll (Text.lines ("\n".intercalate lines).toList) := by
    refine readAll_congr (List.forall₂_map_left_iff.mpr (List.forall₂_same.mpr ?_)) start
    exact fun line _ => Text.trim_withoutTerminator line
  have kept : start.readAll (Text.lines ("\n".intercalate lines).toList ++ lost) =
      start.readAll (Text.lines ("\n".intercalate lines).toList) := by
    rcases empty with rfl | rfl
    · rw [List.append_nil]
    · exact readAll_append_blank start _
  rw [logicalLines, outsideComments_of_settled settled, readLines_eq_ok_iff, texts, shown, ← kept,
    readAll_congr alike]

end Bindings

namespace Session

/-- A session that some run of an empty session leads to. -/
def Reachable (session : Session) : Prop :=
  ∃ policy actions, session ∈ trace ⟨.empty, policy⟩ actions

theorem numeric_of_literal {text : List Char} {v : Value} (value : Statement.literal text = .ok v) :
    ¬ Value.Part (.float .nan) v :=
  fun part => (Statement.literal_eq_ok_iff.mp value).ne_nan
    ((Statement.literal_eq_ok_iff.mp value).eq_of_part_float part)

/-- All that a reachable session binds equals itself. -/
theorem Reachable.beq_self {session next : Session} (reachable : session.Reachable) {text : String}
    {document : Document} (parsed : session.parse text = (.ok document, next)) :
    ∀ entry ∈ document.entries, (entry.2 == entry.2) = true := by
  obtain ⟨policy, actions, member⟩ := reachable
  have numeric : session.constants.Each fun _ v => True ∧ ¬ Value.Part (.float .nan) v :=
    (each_trace Table.each_empty fun _ _ _ _ _ => ⟨trivial, fun _ => numeric_of_literal⟩).1 session member
  have given : session.returned (.parse text) = some document := by
    rw [returned, parsed]
    rfl
  have each := (each_act numeric fun _ _ _ _ _ => ⟨trivial, fun _ => numeric_of_literal⟩).2 document given
  intro entry inside
  exact Value.equal_self_iff.mpr (each entry inside).2

/-- Independent lines commute: a text without fault has the same entries and leaves the same constants in
every order of its lines that keeps the order of those that depend on each other. -/
theorem parse_reordered {session next : Session} {lines : List String} {document : Document}
    (place : Equiv.Perm (Fin lines.length)) (whole : ∀ line ∈ lines, '\n' ∉ line.toList)
    (plain : ∀ line ∈ lines, Text.trim line.toList ≠ "=begin".toList)
    (kept : ∀ i j, i < j → Dependent lines[place i].toList lines[place j].toList → place i < place j)
    (parsed : session.parse ("\n".intercalate lines) = (.ok document, next)) :
    ∃ others last, session.parse ("\n".intercalate (List.ofFn fun i => lines[place i])) = (.ok others, last) ∧
      (others.keys.Perm document.keys ∧ ∀ key, others.get? key = document.get? key) ∧
      (session.Reachable → (others == document) = true) ∧
      last.policy = next.policy ∧ last.constants.keys.Perm next.constants.keys ∧
      ∀ name, last.constants.get? name = next.constants.get? name := by
  obtain ⟨constants, run, rfl⟩ := parse_eq_ok_iff.mp parsed
  have moved {line : String} (member : line ∈ List.ofFn fun i => lines[place i]) : line ∈ lines := by
    obtain ⟨i, rfl⟩ := List.mem_ofFn.mp member
    exact List.getElem_mem _
  have places : (List.finRange lines.length).map (fun i => lines[i].toList) = lines.map String.toList := by
    rw [← List.ofFn_eq_map]
    exact List.ofFn_getElem_eq_map lines String.toList
  have order : (List.ofFn place).map (fun i => lines[i].toList) =
      (List.ofFn fun i => lines[place i]).map String.toList := by
    rw [List.map_ofFn, List.map_ofFn]
    rfl
  have perm : (List.ofFn place).Perm (List.finRange lines.length) := by
    rw [List.ofFn_eq_map]
    exact place.map_finRange_perm
  rw [Bindings.readLines_joined whole plain, ← places] at run
  obtain ⟨final, course, agree⟩ := Bindings.exists_readAll_reordered _ (List.pairwise_lt_finRange _) perm
    (List.pairwise_ofFn.mpr kept) run
  rw [order, ← Bindings.readLines_joined (fun line member => whole line (moved member))
    (fun line member => plain line (moved member))] at course
  have reordered := parse_eq_ok_iff.mpr ⟨final.constants, course, rfl⟩
  refine ⟨final.document, _, reordered, ⟨?_, ?_⟩, ?_, rfl, ?_, ?_⟩
  · exact Table.keys_perm_of_get?_eq agree.document.symm
  · exact congrFun agree.document.symm
  · exact fun reachable => Table.beq_of_get?_eq agree.document.symm (reachable.beq_self reordered)
  · exact Table.keys_perm_of_get?_eq agree.constants.symm
  · exact congrFun agree.constants.symm

/-- An entry crosses the declaration of its name, and a reference stays behind its declaration. -/
theorem parse_reordered_shared_name :
    let session : Session := ⟨.empty, .accumulate⟩
    let lines := ["n : 2", "n := {1}", "", "k : #[n]"]
    let document : Document := Table.ofList [("n", .int 2), ("k", .array [.int 1])]
    let next : Session := ⟨Table.ofList [("n", .array [.int 1])], .accumulate⟩
    session.parse ("\n".intercalate lines) = (.ok document, next) ∧
      ∃ others last, session.parse "n := {1}\nk : #[n]\n\nn : 2" = (.ok others, last) ∧
        (others == document) = true ∧ last.constants.keys.Perm ["n"] := by
  intro session lines document next
  have parsed : session.parse ("\n".intercalate lines) = (.ok document, next) := by
    dsimp only [lines]
    with_unfolding_all rfl
  let place : Equiv.Perm (Fin 4) := (Equiv.swap 1 3).trans (Equiv.swap 0 1)
  have kept (i j : Fin 4) : i < j → Dependent lines[place i].toList lines[place j].toList → place i < place j := by
    revert i j
    decide +kernel
  obtain ⟨others, last, reordered, -, same, -, names, -⟩ :=
    @parse_reordered session next lines document place (by decide) (by decide +kernel) kept parsed
  exact ⟨parsed, others, last, reordered, same ⟨.accumulate, [], List.mem_singleton_self _⟩, names⟩

end Session

end Settings
