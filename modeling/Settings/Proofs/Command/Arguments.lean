import Mathlib.Data.List.Basic
import Settings.Command.Request

namespace Settings

/-- What a command line gives with one of its parts. -/
inductive Given
  | file (path : String)
  | output (path : String)
  | noConstants
  | compact

/-- A command line is written as its parts in some order. An output path stands behind its option or in one
argument with it, and only behind a `--` may a file be named like an option. -/
inductive CommandLine : List Given → List String → Prop
  | nil : CommandLine [] []
  | file {path : String} {givens : List Given} {rest : List String} : Request.isOption path = false →
      CommandLine givens rest → CommandLine (.file path :: givens) (path :: rest)
  | plainFiles (paths : List String) : CommandLine (paths.map .file) ("--" :: paths)
  | noConstants {givens : List Given} {rest : List String} : CommandLine givens rest →
      CommandLine (.noConstants :: givens) ("--no-constants" :: rest)
  | compact {givens : List Given} {rest : List String} : CommandLine givens rest →
      CommandLine (.compact :: givens) ("--compact" :: rest)
  | output {option path : String} {givens : List Given} {rest : List String} :
      option = "-o" ∨ option = "--output" → Request.isOption path = false → CommandLine givens rest →
      CommandLine (.output path :: givens) (option :: path :: rest)
  | outputAfterEquals {head path : String} {givens : List Given} {rest : List String} :
      head = "-o=" ∨ head = "--output=" → CommandLine givens rest →
      CommandLine (.output path :: givens) ((head ++ path) :: rest)
  | outputAttached {path : String} {givens : List Given} {rest : List String} :
      path ≠ "" → path.toList.head? ≠ some '=' → CommandLine givens rest →
      CommandLine (.output path :: givens) (("-o" ++ path) :: rest)

namespace Draft

/-- The draft with one more part of the command line. -/
def take (draft : Draft) : Given → Option Draft
  | .file path => draft.setFile path
  | .output path => draft.setOutput path
  | .noConstants => draft.setNoConstants
  | .compact => draft.setCompact

/-- The draft says what the parts of a command line give, and no more. -/
structure Holds (draft : Draft) (givens : List Given) : Prop where
  file : ∀ path, draft.file = some path ↔ .file path ∈ givens
  output : ∀ path, draft.output = some path ↔ .output path ∈ givens
  noConstants : draft.noConstants = true ↔ .noConstants ∈ givens
  compact : draft.compact = true ↔ .compact ∈ givens

variable {draft next final : Draft} {past : List Given}

theorem holds_nil : Holds {} [] :=
  ⟨fun _ => iff_of_false nofun nofun, fun _ => iff_of_false nofun nofun, iff_of_false nofun nofun,
    iff_of_false nofun nofun⟩

theorem of_setFile {path : String} (taken : draft.setFile path = some next) :
    draft.file = none ∧ next = { draft with file := some path } := by
  rw [setFile] at taken
  split at taken
  · cases taken
  · rename_i unset
    cases taken
    exact ⟨Option.not_isSome_iff_eq_none.mp (not_or.mp unset).1, rfl⟩

theorem of_setOutput {path : String} (taken : draft.setOutput path = some next) :
    draft.output = none ∧ next = { draft with output := some path } := by
  rw [setOutput] at taken
  split at taken
  · cases taken
  · rename_i unset
    cases taken
    exact ⟨Option.not_isSome_iff_eq_none.mp (not_or.mp unset).1, rfl⟩

theorem of_setNoConstants (taken : draft.setNoConstants = some next) :
    next = { draft with noConstants := true } := by
  rw [setNoConstants] at taken
  split at taken
  · cases taken
  · cases taken
    rfl

theorem of_setCompact (taken : draft.setCompact = some next) :
    next = { draft with compact := true } := by
  rw [setCompact] at taken
  split at taken
  · cases taken
  · cases taken
    rfl

theorem Holds.take {given : Given} (holds : draft.Holds past) (taken : draft.take given = some next) :
    next.Holds (past ++ [given]) := by
  obtain ⟨file, output, noConstants, compact⟩ := holds
  cases given with
  | file path =>
    obtain ⟨unset, rfl⟩ := of_setFile taken
    have fresh (other : String) : .file other ∉ past := by
      rw [← file, unset]
      exact nofun
    refine ⟨?_, ?_, ?_, ?_⟩
    · intro other
      simp [fresh, eq_comm]
    · simp [output]
    · simp [noConstants]
    · simp [compact]
  | output path =>
    obtain ⟨unset, rfl⟩ := of_setOutput taken
    have fresh (other : String) : .output other ∉ past := by
      rw [← output, unset]
      exact nofun
    refine ⟨?_, ?_, ?_, ?_⟩
    · simp [file]
    · intro other
      simp [fresh, eq_comm]
    · simp [noConstants]
    · simp [compact]
  | noConstants =>
    obtain rfl := of_setNoConstants taken
    refine ⟨?_, ?_, ?_, ?_⟩
    · simp [file]
    · simp [output]
    · simp
    · simp [compact]
  | compact =>
    obtain rfl := of_setCompact taken
    refine ⟨?_, ?_, ?_, ?_⟩
    · simp [file]
    · simp [output]
    · simp [noConstants]
    · simp

end Draft

namespace Request

variable {draft final : Draft} {past : List Given} {arguments rest : List String}

theorem attachedOutput?_eq_some_cases {argument path : String}
    (attached : attachedOutput? argument = some path) :
    (argument = "-o=" ++ path ∨ argument = "--output=" ++ path) ∨
      argument = "-o" ++ path ∧ path ≠ "" ∧ path.toList.head? ≠ some '=' := by
  rw [attachedOutput?] at attached
  split at attached
  · rename_i long
    cases attached
    refine .inl (.inr ?_)
    rw [← String.toList_inj, String.toList_append, String.toList_ofList, String.toList_ofList]
    exact (List.prefix_iff_eq_append.mp long).symm
  · split at attached
    · rename_i characters
      cases attached
      refine .inl (.inl ?_)
      rw [← String.toList_inj, String.toList_append, String.toList_ofList, String.toList_ofList]
      exact characters
    · rename_i c tail other characters
      cases attached
      refine .inr ⟨?_, ?_, ?_⟩
      · rw [← String.toList_inj, String.toList_append, String.toList_ofList, String.toList_ofList]
        exact characters
      · intro empty
        have none := congrArg String.toList empty
        rw [String.toList_ofList] at none
        cases none
      · rw [String.toList_ofList]
        exact fun same => other (Option.some.inj same)
    · cases attached

theorem holds_of_readPlain {paths : List String} (holds : draft.Holds past)
    (read : readPlain draft paths = some final) : final.Holds (past ++ paths.map .file) := by
  induction paths generalizing draft past with
  | nil =>
    cases read
    rwa [List.map_nil, List.append_nil]
  | cons path rest ih =>
    obtain ⟨next, taken, later⟩ := Option.bind_eq_some_iff.mp read
    have step : next.Holds (past ++ [.file path]) := holds.take taken
    have whole := ih step later
    rwa [List.append_assoc, List.singleton_append] at whole

/-- One part is taken, then the rest. -/
theorem exists_of_take (given : Given) (holds : draft.Holds past)
    (read : ((draft.take given).bind fun next => readArguments next rest) = some final)
    (ih : ∀ (next : Draft) {past : List Given}, next.Holds past → readArguments next rest = some final →
      ∃ givens, CommandLine givens rest ∧ final.Holds (past ++ givens)) :
    ∃ givens, CommandLine givens rest ∧ final.Holds (past ++ given :: givens) := by
  obtain ⟨next, taken, later⟩ := Option.bind_eq_some_iff.mp read
  obtain ⟨givens, written, whole⟩ := ih next (holds.take taken) later
  rw [List.append_assoc, List.singleton_append] at whole
  exact ⟨givens, written, whole⟩

theorem exists_commandLine_of_readArguments (holds : draft.Holds past)
    (read : readArguments draft arguments = some final) :
    ∃ givens, CommandLine givens arguments ∧ final.Holds (past ++ givens) := by
  -- The cases are the kinds of arguments in the order in which they are tried, each with its own writing.
  fun_induction readArguments draft arguments generalizing past with
  | case1 draft =>
    cases read
    exact ⟨[], .nil, by rwa [List.append_nil]⟩
  | case2 draft paths => exact ⟨_, .plainFiles paths, holds_of_readPlain holds read⟩
  | case3 draft rest _ ih =>
    obtain ⟨givens, written, whole⟩ := exists_of_take .noConstants holds read ih
    exact ⟨_, .noConstants written, whole⟩
  | case4 draft rest _ _ ih =>
    obtain ⟨givens, written, whole⟩ := exists_of_take .compact holds read ih
    exact ⟨_, .compact written, whole⟩
  | case5 | case6 | case9 => cases read
  | case7 draft option _ _ _ named path rest plain ih =>
    obtain ⟨givens, written, whole⟩ := exists_of_take (.output path) holds read ih
    exact ⟨_, .output named (Bool.eq_false_iff.mpr plain) written, whole⟩
  | case8 draft argument rest _ _ _ _ path attached ih =>
    obtain ⟨givens, written, whole⟩ := exists_of_take (.output path) holds read ih
    rcases attachedOutput?_eq_some_cases attached with (rfl | rfl) | ⟨rfl, present, other⟩
    · exact ⟨_, .outputAfterEquals (.inl rfl) written, whole⟩
    · exact ⟨_, .outputAfterEquals (.inr rfl) written, whole⟩
    · exact ⟨_, .outputAttached present other written, whole⟩
  | case10 draft path rest _ _ _ _ _ plain ih =>
    obtain ⟨givens, written, whole⟩ := exists_of_take (.file path) holds read ih
    exact ⟨_, .file (Bool.eq_false_iff.mpr plain) written, whole⟩

/-- The request is what the parts of a command line give. -/
structure Says (request : Request) (givens : List Given) : Prop where
  file : ∀ path, request.file = path ↔ .file path ∈ givens
  output : ∀ path, request.output = some path ↔ .output path ∈ givens
  withConstants : request.withConstants = true ↔ .noConstants ∉ givens
  layout : request.layout = .compact ↔ .compact ∈ givens

/-- What a command line is read as is what its parts give. -/
theorem exists_commandLine {request : Request} (read : ofArguments? arguments = some request) :
    ∃ givens, CommandLine givens arguments ∧ request.Says givens := by
  obtain ⟨draft, course, finished⟩ := Option.bind_eq_some_iff.mp read
  obtain ⟨givens, written, holds⟩ := exists_commandLine_of_readArguments Draft.holds_nil course
  obtain ⟨file, named, rfl⟩ := Option.map_eq_some_iff.mp finished
  rw [List.nil_append] at holds
  refine ⟨givens, written, ?_, holds.output, ?_, ?_⟩
  · intro path
    rw [← holds.file, named, Option.some_inj]
  · rw [← holds.noConstants]
    cases draft.noConstants with
    | false => exact iff_of_true rfl nofun
    | true => exact iff_of_false nofun (not_not_intro rfl)
  · rw [← holds.compact]
    cases draft.compact with
    | false => exact iff_of_false nofun nofun
    | true => exact iff_of_true rfl rfl

end Request

end Settings
