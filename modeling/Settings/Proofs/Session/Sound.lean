import Settings.Proofs.Literal.Parts
import Settings.Proofs.Session.Trace

namespace Settings

/-- A table as settings texts can bind it: its keys are names and occur once, and its values are
sound. -/
structure Table.Sound (table : Table String Value) : Prop where
  names : ∀ key ∈ table.keys, IsIdentifier key
  once : table.keys.Nodup
  values : ∀ entry ∈ table.entries, entry.2.Sound

theorem Table.Each.sound {table : Table String Value}
    (each : table.Each fun name v => IsIdentifier name ∧ v.Sound) : table.Sound where
  names := by
    intro key member
    obtain ⟨entry, inside, rfl⟩ := List.mem_map.mp member
    exact (each entry inside).1
  once := table.nodup
  values entry member := (each entry member).2

/-- What a text writes is bound by one of its lines, the blanks around the line aside. -/
theorem Writes.exists_content {text name : String} {value : List Char}
    (writes : Writes (logicalLines text) name value) :
    ∃ content ∈ Text.lines text.toList, ∃ operator, Statement.Binds operator name value (Text.trim content) := by
  obtain ⟨line, member, binds⟩ := writes
  refine ⟨line.content, (contents_logicalLines_sublist text).subset (List.mem_map_of_mem member), ?_⟩
  rw [← SourceLine.trim_text]
  rcases binds with declares | enters
  · exact ⟨_, Statement.Binds.trim_iff.mpr (Statement.declared?_eq_some_iff.mp declares)⟩
  · exact ⟨_, Statement.Binds.trim_iff.mpr (Statement.entered?_eq_some_iff.mp enters).1⟩

/-- What a line binds is a name with a value text on one line, which is not empty. -/
theorem Writes.onLine {text name : String} {value : List Char}
    (writes : Writes (logicalLines text) name value) :
    IsIdentifier name ∧ value ≠ [] ∧ '\n' ∉ value := by
  obtain ⟨content, inside, operator, binds⟩ := writes.exists_content
  exact ⟨binds.isIdentifier, binds.value_ne_nil, mt binds.mem_text (Text.not_mem_trim_of_mem_lines inside)⟩

/-- No value text is longer than the text that it stands in. -/
theorem Writes.length_le {text name : String} {value : List Char}
    (writes : Writes (logicalLines text) name value) : value.length ≤ text.length := by
  obtain ⟨content, inside, operator, binds⟩ := writes.exists_content
  have whole := (List.sublist_flatten_of_mem inside).length_le
  rw [Text.flatten_lines, String.length_toList] at whole
  exact (binds.value_infix.length_le.trans (Text.length_trim_le content)).trans whole

namespace Session

/-- All that comes of a run, whether its texts succeed or fail, is sound, and so is what a document and
the constants are merged into. -/
theorem sound_trace (policy : Policy) (actions : List Action) :
    (∀ session ∈ trace ⟨.empty, policy⟩ actions, session.constants.Sound) ∧
      (∀ document ∈ documents ⟨.empty, policy⟩ actions, document.Sound) ∧
      ∀ document ∈ documents ⟨.empty, policy⟩ actions, ∀ session ∈ trace ⟨.empty, policy⟩ actions,
        (document.merge session.constants).Sound := by
  have written : ∀ text, .parse text ∈ actions → ∀ name value, Writes (logicalLines text) name value →
      IsIdentifier name ∧ ∀ v, Statement.literal value = .ok v → v.Sound := by
    intro text _ name value writes
    obtain ⟨named, -, line⟩ := writes.onLine
    exact ⟨named, fun v literal => (Statement.literal_eq_ok_iff.mp literal).sound line⟩
  have start : (Session.mk .empty policy).constants.Each fun name v => IsIdentifier name ∧ v.Sound :=
    Table.each_empty
  obtain ⟨sessions, documents⟩ := each_trace start written
  refine ⟨fun session member => (sessions session member).sound,
    fun document member => (documents document member).sound, ?_⟩
  intro document given session member
  exact ((documents document given).merge (sessions session member)).sound

end Session

end Settings
