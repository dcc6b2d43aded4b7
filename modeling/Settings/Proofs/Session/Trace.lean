import Settings.Proofs.Session.Run

namespace Settings

/-- One of the lines binds a name with a value text, be it as a constant or as a key. -/
def Writes (lines : List SourceLine) (name : String) (text : List Char) : Prop :=
  ∃ line ∈ lines, Statement.declared? line.text = some (name, text) ∨
    Statement.entered? line.text = some (name, text)

theorem Writes.mono {lines more : List SourceLine} {name : String} {text : List Char}
    (writes : Writes lines name text) (part : lines ⊆ more) : Writes more name text := by
  obtain ⟨line, member, binds⟩ := writes
  exact ⟨line, part member, binds⟩

namespace Bindings

/-- All names have a property, and all values have another one. -/
structure Each (P : String → Prop) (Q : Value → Prop) (bindings : Bindings) : Prop where
  constants : bindings.constants.Each fun name v => P name ∧ Q v
  document : bindings.document.Each fun key v => P key ∧ Q v

variable {P : String → Prop} {Q : Value → Prop} {bindings : Bindings}

/-- A value text stands for a literal or for a constant. -/
theorem Each.valueWith (each : bindings.Each P Q) {text : List Char} {v : Value}
    (literals : ∀ v, Statement.literal text = .ok v → Q v)
    (value : Statement.valueWith bindings.constants.get? text = some v) : Q v := by
  rw [Statement.valueWith] at value
  split at value
  · exact (each.constants _ (Table.mem_of_get? value)).2
  · cases literal : Statement.literal text with
    | error fault =>
      rw [literal] at value
      cases value
    | ok w =>
      rw [literal] at value
      cases value
      exact literals v literal

theorem Each.readLine {next : Bindings} {line : SourceLine} (each : bindings.Each P Q)
    (written : ∀ name text, Writes [line] name text →
      P name ∧ ∀ v, Statement.literal text = .ok v → Q v)
    (accepted : bindings.readLine line.text = .ok next) : next.Each P Q := by
  rcases readLine_eq_ok_cases accepted with ⟨_, rfl⟩ | ⟨name, text, v, declares, value, rfl⟩ |
    ⟨key, text, v, enters, value, rfl⟩
  · exact each
  · obtain ⟨named, literals⟩ := written name text ⟨line, List.mem_singleton_self line, Or.inl declares⟩
    exact ⟨each.constants.insert ⟨named, literals v value⟩, each.document⟩
  · obtain ⟨named, literals⟩ := written key text ⟨line, List.mem_singleton_self line, Or.inr enters⟩
    exact ⟨each.constants, each.document.insert ⟨named, each.valueWith literals value⟩⟩

/-- What holds of all that is written in lines comes to hold of all that is bound, up to the first bad
line. -/
theorem Each.readLines {lines : List SourceLine} (each : bindings.Each P Q)
    (written : ∀ name text, Writes lines name text →
      P name ∧ ∀ v, Statement.literal text = .ok v → Q v) : (bindings.readLines lines).1.Each P Q := by
  induction lines generalizing bindings with
  | nil => exact each
  | cons line rest ih =>
    rw [Bindings.readLines]
    cases read : bindings.readLine line.text with
    | error fault => exact each
    | ok next =>
      have here : [line] ⊆ line :: rest := List.cons_subset_cons line (List.nil_subset rest)
      have later : rest ⊆ line :: rest := List.subset_cons_self line rest
      exact ih (each.readLine (fun name text writes => written name text (writes.mono here)) read)
        fun name text writes => written name text (writes.mono later)

end Bindings

namespace Session

/-- What can be done with a session. -/
inductive Action
  | parse (text : String)
  | reset

/-- The session after an action. A text that fails counts too. -/
def act (session : Session) : Action → Session
  | .parse text => (session.parse text).2
  | .reset => session.resetConstants

/-- The session and what becomes of it in a run, action by action. -/
def trace (session : Session) : List Action → List Session
  | [] => [session]
  | action :: rest => session :: (session.act action).trace rest

/-- The document that an action returns, if it returns one. -/
def returned (session : Session) : Action → Option Document
  | .parse text => (session.parse text).1.toOption
  | .reset => none

/-- The documents that a run returns. -/
def documents (session : Session) : List Action → List Document
  | [] => []
  | action :: rest => (session.returned action).toList ++ (session.act action).documents rest

variable {P : String → Prop} {Q : Value → Prop} {session : Session}

theorem each_initial (each : session.constants.Each fun name v => P name ∧ Q v) :
    Bindings.Each P Q ⟨session.initial, .empty⟩ := by
  refine ⟨?_, Table.each_empty⟩
  show session.initial.Each _
  rw [initial]
  split
  · exact each
  · exact Table.each_empty

/-- An action keeps what holds of all that is written in its text. -/
theorem each_act (each : session.constants.Each fun name v => P name ∧ Q v) {action : Action}
    (written : ∀ text, action = .parse text → ∀ name value, Writes (logicalLines text) name value →
      P name ∧ ∀ v, Statement.literal value = .ok v → Q v) :
    (session.act action).constants.Each (fun name v => P name ∧ Q v) ∧
      ∀ document, session.returned action = some document → document.Each fun key v => P key ∧ Q v := by
  cases action with
  | reset => exact ⟨Table.each_empty, nofun⟩
  | parse text =>
    have final := (each_initial each).readLines (written text rfl)
    obtain ⟨⟨bindings, failure⟩, run⟩ : ∃ outcome,
        Bindings.readLines ⟨session.initial, .empty⟩ (logicalLines text) = outcome := ⟨_, rfl⟩
    rw [run] at final
    rw [act, returned, parse_of_readLines run]
    refine ⟨final.constants, ?_⟩
    intro document returned
    cases failure <;> cases returned
    exact final.document

/-- So does a run, for all its sessions and documents. -/
theorem each_trace (each : session.constants.Each fun name v => P name ∧ Q v) {actions : List Action}
    (written : ∀ text, .parse text ∈ actions → ∀ name value, Writes (logicalLines text) name value →
      P name ∧ ∀ v, Statement.literal value = .ok v → Q v) :
    (∀ later ∈ session.trace actions, later.constants.Each fun name v => P name ∧ Q v) ∧
      ∀ document ∈ session.documents actions, document.Each fun key v => P key ∧ Q v := by
  induction actions generalizing session with
  | nil =>
    refine ⟨?_, nofun⟩
    intro later member
    rw [List.mem_singleton.mp member]
    exact each
  | cons action rest ih =>
    obtain ⟨next, given⟩ := each_act each fun text here => written text (here ▸ List.mem_cons_self)
    obtain ⟨sessions, others⟩ := ih next fun text member => written text (List.mem_cons_of_mem action member)
    refine ⟨?_, ?_⟩
    · intro later member
      rcases List.mem_cons.mp member with rfl | behind
      · exact each
      · exact sessions later behind
    · intro document member
      rcases List.mem_append.mp member with here | behind
      · exact given document (Option.mem_toList.mp here)
      · exact others document behind

end Session

end Settings
