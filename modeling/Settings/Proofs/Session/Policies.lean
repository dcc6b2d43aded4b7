import Settings.Proofs.Session.Concatenation
import Settings.Proofs.Session.FailFast
import Settings.Proofs.Session.Trace

namespace Settings

namespace Bindings

/-- A constant keeps its place, and a new one goes behind those there are. -/
theorem keys_prefix_readLine {bindings next : Bindings} {line : List Char}
    (accepted : bindings.readLine line = .ok next) : bindings.constants.keys <+: next.constants.keys := by
  rcases readLine_eq_ok_cases accepted with ⟨_, rfl⟩ | ⟨name, _, v, _, _, rfl⟩ | ⟨_, _, _, _, _, rfl⟩
  · exact List.prefix_rfl
  · rw [Table.keys_insert]
    split
    · exact List.prefix_rfl
    · exact List.prefix_append _ _
  · exact List.prefix_rfl

theorem keys_prefix_readLines (bindings : Bindings) (lines : List SourceLine) :
    bindings.constants.keys <+: (bindings.readLines lines).1.constants.keys := by
  induction lines generalizing bindings with
  | nil => exact List.prefix_rfl
  | cons line rest ih =>
    rw [readLines]
    cases read : bindings.readLine line.text with
    | error fault => exact List.prefix_rfl
    | ok next => exact (keys_prefix_readLine read).trans (ih next)

end Bindings

namespace Session

/-- The result of a text with the constants behind it. -/
def answer (session : Session) (text : String) : Except ParseError Document × Constants :=
  ((session.parse text).1, (session.parse text).2.constants)

/-- The answers to the texts of a run. -/
def answers (session : Session) : List Action → List (Except ParseError Document × Constants)
  | [] => []
  | .parse text :: rest => session.answer text :: (session.act (.parse text)).answers rest
  | .reset :: rest => (session.act .reset).answers rest

/-- The session behind a run. -/
def run (session : Session) (actions : List Action) : Session :=
  actions.foldl act session

/-- The lines of a text in front of its first bad line, or the whole text if it has none. -/
def acceptedPart (session : Session) (text : String) : String :=
  match (session.parse text).1 with
  | .ok _ => text
  | .error e => firstLines (e.line - 1) text

/-- What a session accepts of texts that it parses one after the other. -/
def acceptedParts (session : Session) : List String → List String
  | [] => []
  | text :: rest => session.acceptedPart text :: (session.act (.parse text)).acceptedParts rest

/-- An answer depends on nothing of a session but the constants that a text starts with. -/
theorem answer_congr {session other : Session} (same : session.initial = other.initial) (text : String) :
    session.answer text = other.answer text := by
  obtain ⟨⟨final, failure⟩, course⟩ : ∃ outcome,
      Bindings.readLines ⟨session.initial, .empty⟩ (logicalLines text) = outcome := ⟨_, rfl⟩
  rw [answer, parse_of_readLines course]
  rw [same] at course
  rw [answer, parse_of_readLines course]

theorem policy_act (session : Session) (action : Action) : (session.act action).policy = session.policy := by
  cases action <;> rfl

theorem initial_of_reset {session : Session} (policy : session.policy = .reset) : session.initial = .empty := by
  rw [initial, policy]

theorem initial_of_empty {session : Session} (start : session.constants = .empty) : session.initial = .empty := by
  rw [initial, start]
  split <;> rfl

/-- A session that forgets its constants answers every text as a fresh session does. -/
theorem answers_of_reset (session fresh : Session) (policy : session.policy = .reset)
    (start : fresh.constants = .empty) (texts : List String) :
    session.answers (texts.map .parse) = texts.map fresh.answer := by
  induction texts generalizing session with
  | nil => rfl
  | cons text rest ih =>
    have same : session.initial = fresh.initial := (initial_of_reset policy).trans (initial_of_empty start).symm
    rw [List.map_cons, List.map_cons, answers, answer_congr same, ih _ ((session.policy_act _).trans policy)]

/-- So does a session whose constants are cleared in front of every text. -/
theorem answers_of_resetConstants (session fresh : Session) (start : fresh.constants = .empty)
    (texts : List String) :
    session.answers (texts.flatMap fun text => [.reset, .parse text]) = texts.map fresh.answer := by
  induction texts generalizing session with
  | nil => rfl
  | cons text rest ih =>
    have same : (session.act .reset).initial = fresh.initial :=
      (initial_of_empty rfl).trans (initial_of_empty start).symm
    rw [List.flatMap_cons, List.map_cons, List.cons_append, answers, List.singleton_append, answers,
      answer_congr same, ih]

theorem run_concat (session : Session) (actions : List Action) (action : Action) :
    session.run (actions ++ [action]) = (session.run actions).act action := by
  rw [run, List.foldl_append, ← run]
  rfl

theorem policy_run (session : Session) (actions : List Action) :
    (session.run actions).policy = session.policy := by
  induction actions generalizing session with
  | nil => rfl
  | cons action rest ih => exact (ih _).trans (session.policy_act action)

theorem keys_prefix_act {session : Session} (policy : session.policy = .accumulate) (text : String) :
    session.constants.keys <+: (session.act (.parse text)).constants.keys := by
  have kept := Bindings.keys_prefix_readLines ⟨session.initial, .empty⟩ (logicalLines text)
  rw [act, parse_of_readLines rfl]
  rw [initial_of_accumulate policy] at kept ⊢
  exact kept

/-- What a session accepts of a text is a text without fault, which leaves the same constants. -/
theorem exists_readLines_acceptedPart (session : Session) (text : String) : ∃ document,
    Bindings.readLines ⟨session.initial, .empty⟩ (logicalLines (session.acceptedPart text)) =
      (⟨(session.act (.parse text)).constants, document⟩, none) := by
  obtain ⟨⟨final, failure⟩, course⟩ : ∃ outcome,
      Bindings.readLines ⟨session.initial, .empty⟩ (logicalLines text) = outcome := ⟨_, rfl⟩
  refine ⟨final.document, ?_⟩
  rw [acceptedPart, act, parse_of_readLines course]
  cases failure with
  | none => exact course
  | some e =>
    obtain ⟨before, content, rest, fails⟩ := Bindings.exists_failsAt course
    exact fails.readLines_firstLines

/-- The entries of another text stand below those of a text, which do not depend on them. -/
theorem exists_readLines_above {constants final : Constants} {lines : List SourceLine}
    (succeeded : ∃ document, Bindings.readLines ⟨constants, .empty⟩ lines = (⟨final, document⟩, none))
    (lower : Document) :
    ∃ document, Bindings.readLines ⟨constants, lower⟩ lines = (⟨final, document⟩, none) := by
  obtain ⟨document, course⟩ := succeeded
  have above : (⟨constants, lower⟩ : Bindings) = (⟨constants, .empty⟩ : Bindings).onto lower := rfl
  refine ⟨lower.merge document, ?_⟩
  rw [above, Bindings.readLines_onto, course]
  rfl

/-- What a run of texts leaves is left by one text, which joins what the run accepts of each. -/
theorem exists_readLines_acceptedParts {session : Session} (policy : session.policy = .accumulate)
    (texts : List String) : ∃ document,
    Bindings.readLines ⟨session.initial, .empty⟩
        (logicalLines ("\n".intercalate (session.acceptedParts texts))) =
      (⟨(session.run (texts.map .parse)).constants, document⟩, none) := by
  induction texts generalizing session with
  | nil =>
    refine ⟨.empty, ?_⟩
    rw [initial_of_accumulate policy]
    rfl
  | cons text rest ih =>
    have first := session.exists_readLines_acceptedPart text
    cases rest with
    | nil => exact first
    | cons other rest =>
      have next := (session.policy_act (.parse text)).trans policy
      obtain ⟨document, course⟩ := first
      obtain ⟨whole, later⟩ := exists_readLines_above (ih next) document
      rw [initial_of_accumulate next] at later
      refine ⟨whole, ?_⟩
      rw [acceptedParts, acceptedParts, String.intercalate_cons_cons, ← acceptedParts,
        Bindings.readLines_concatenation course, later]
      rfl

/-- The two policies over runs of texts, good and bad ones. A session that forgets its constants gives each
text the answer of a fresh session, which is also that of a session whose constants are cleared in front of
the text. Where constants stay, names are only added behind those there are, and the whole run leaves what
one text without fault leaves, made of the lines in front of the first bad line of each text. -/
theorem runs_by_policy (constants : Constants) (texts : List String) :
    (∀ policy, (Session.mk constants .reset).answers (texts.map .parse) =
        texts.map (Session.mk .empty policy).answer) ∧
      (∀ other, (Session.mk constants .reset).answers (texts.map .parse) =
        (Session.mk other .accumulate).answers (texts.flatMap fun text => [.reset, .parse text])) ∧
      (∀ text, ((Session.mk constants .accumulate).run (texts.map .parse)).constants.keys <+:
        ((Session.mk constants .accumulate).run ((texts ++ [text]).map .parse)).constants.keys) ∧
      ∃ document, (Session.mk constants .accumulate).parse
          ("\n".intercalate ((Session.mk constants .accumulate).acceptedParts texts)) =
        (.ok document, (Session.mk constants .accumulate).run (texts.map .parse)) := by
  have fresh (policy : Policy) := answers_of_reset ⟨constants, .reset⟩ ⟨.empty, policy⟩ rfl rfl texts
  refine ⟨fresh, ?_, ?_, ?_⟩
  · intro other
    rw [fresh .accumulate, answers_of_resetConstants ⟨other, .accumulate⟩ ⟨.empty, .accumulate⟩ rfl]
  · intro text
    rw [List.map_append, List.map_singleton, run_concat]
    exact keys_prefix_act (policy_run _ _) text
  · have policy : (Session.mk constants .accumulate).policy = .accumulate := rfl
    obtain ⟨document, course⟩ := exists_readLines_acceptedParts policy texts
    refine ⟨document, parse_eq_ok_iff.mpr ⟨_, course, ?_⟩⟩
    rw [Session.mk.injEq]
    exact ⟨rfl, policy_run _ _⟩

end Session

end Settings
