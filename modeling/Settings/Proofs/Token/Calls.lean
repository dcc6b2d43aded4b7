import Settings.Proofs.Token.Cursor

namespace Settings.Cursor

/-- What a cursor can be asked for: its next token, or the rest of its text. -/
inductive Call
  | next
  | rest
  deriving DecidableEq, Repr

/-- The characters that a call consumes: a token and the blanks in front of it, or all. -/
def Call.consumed (cursor : Cursor) : Call → List Char
  | next => cursor.blanks ++ cursor.next.1.spelling
  | rest => cursor.unread

/-- The position behind a call. -/
def Call.after (cursor : Cursor) : Call → Cursor
  | next => cursor.next.2
  | rest => cursor.takeRest.2

/-- The position behind calls, one after the other. -/
def run (cursor : Cursor) (calls : List Call) : Cursor :=
  calls.foldl Call.after cursor

/-- All characters that calls consume, one after the other. -/
def consumed : Cursor → List Call → List Char
  | _, [] => []
  | cursor, call :: calls => call.consumed cursor ++ consumed (call.after cursor) calls

variable {cursor : Cursor} {before : List Char}

theorem Reads.after (reads : cursor.Reads before) (call : Call) :
    (call.after cursor).Reads (before ++ call.consumed cursor) := by
  cases call with
  | next => exact reads.next
  | rest => exact reads.takeRest

/-- The counts agree with what was read in every run. -/
theorem Reads.run (reads : cursor.Reads before) (calls : List Call) :
    (cursor.run calls).Reads (before ++ cursor.consumed calls) := by
  induction calls generalizing cursor before with
  | nil =>
    rw [consumed, List.append_nil]
    exact reads
  | cons call calls ih =>
    have later := ih (reads.after call)
    rw [List.append_assoc] at later
    exact later

theorem text_after (cursor : Cursor) (call : Call) : (call.after cursor).text = cursor.text := by
  cases call with
  | next => exact (text_advance _ _).trans (text_advance _ _)
  | rest => exact text_advance _ _

theorem text_run (cursor : Cursor) (calls : List Call) : (cursor.run calls).text = cursor.text := by
  induction calls generalizing cursor with
  | nil => rfl
  | cons call calls ih => exact (ih (call.after cursor)).trans (text_after cursor call)

theorem reads_run_start (text : List Char) (calls : List Call) :
    ((start text).run calls).Reads ((start text).consumed calls) := by
  simpa only [List.nil_append] using (reads_start text).run calls

/-- What the next token takes from the unread text: blanks and its own characters. A name goes on as long
as there are letters and digits, and a colon in front of an equals sign is not taken alone. -/
structure Takes (cursor : Cursor) : Prop where
  blank : Text.Blank cursor.blanks
  division : cursor.unread = cursor.blanks ++ (cursor.next.1.spelling ++ cursor.next.2.unread)
  progress : cursor.next.1 ≠ .eof → 1 ≤ cursor.next.1.spelling.length
  name {name : String} : cursor.next.1 = .ident name → IsIdentifier name ∧ Unnamed cursor.next.2.unread
  define {rest : List Char} : Text.trimStart cursor.unread = ':' :: '=' :: rest → cursor.next.1 = .define
  colon : cursor.next.1 = .colon → cursor.next.2.unread.head? ≠ some '='
  visible {c : Char} : cursor.next.1 = .unexpected c → Text.isBlank c = false

theorem takes_next (cursor : Cursor) : cursor.Takes where
  blank := fun _ member => List.mem_takeWhile_imp member
  division := unread_eq_next cursor
  progress more := by
    rw [next_fst] at more ⊢
    exact List.length_pos_iff.mpr (Token.spelling_leading_ne_nil more)
  name {name} found := by
    have leads := found
    rw [next_fst, Token.leading_eq_ident_iff] at leads
    obtain ⟨identifier, rest, shape, ended⟩ := leads
    have behind : cursor.next.2.unread = rest := unread_next (by rw [found, shape, Token.spelling])
    rw [behind]
    exact ⟨identifier, ended⟩
  define {rest} shape := by
    rw [next_fst]
    exact Token.leading_eq_define_iff.mpr ⟨rest, shape⟩
  colon found := by
    have leads := found
    rw [next_fst, Token.leading_eq_colon_iff] at leads
    obtain ⟨rest, shape, alone⟩ := leads
    have behind : cursor.next.2.unread = rest := unread_next (by rw [found, shape, Token.spelling]; rfl)
    rw [behind]
    exact alone
  visible {c} found := by
    rw [next_fst] at found
    exact Text.head?_trimStart (Token.head?_of_leading_unexpected found)

/-- At the end of the text there are only blanks left. -/
theorem unread_next_of_eof (ended : cursor.next.1 = .eof) : cursor.next.2.unread = [] := by
  have none := ended
  rw [next_fst, Token.leading_eq_eof_iff] at none
  exact unread_next (by rw [none, ended, Token.spelling, List.nil_append])

/-- The tokens up to the end take all unread characters, with one token at most for each of them. -/
theorem exists_eof (cursor : Cursor) : ∃ count ≤ cursor.unread.length,
    (∀ earlier < count, (cursor.run (List.replicate earlier .next)).next.1 ≠ .eof) ∧
    (cursor.run (List.replicate count .next)).next.1 = .eof ∧
    cursor.consumed (List.replicate (count + 1) .next) = cursor.unread := by
  induction size : cursor.unread.length using Nat.strongRecOn generalizing cursor with
  | ind size ih =>
    have division := unread_eq_next cursor
    by_cases ended : cursor.next.1 = .eof
    · refine ⟨0, Nat.zero_le _, nofun, ended, ?_⟩
      rw [unread_next_of_eof ended, List.append_nil] at division
      rw [division]
      exact List.append_nil _
    · have progress := (takes_next cursor).progress ended
      have lengths := congrArg List.length division
      simp only [List.length_append] at lengths
      obtain ⟨count, bound, before, last, whole⟩ := ih cursor.next.2.unread.length (by omega) cursor.next.2 rfl
      refine ⟨count + 1, by omega, ?_, last, ?_⟩
      · intro earlier less
        cases earlier with
        | zero => exact ended
        | succ earlier => exact before earlier (by omega)
      · rw [division, ← whole, ← List.append_assoc]
        rfl

/-- A call consumes what it no longer leaves unread. -/
theorem consumed_append_after (cursor : Cursor) (call : Call) :
    call.consumed cursor ++ (call.after cursor).unread = cursor.unread := by
  cases call with
  | next =>
    simp only [Call.consumed, Call.after, List.append_assoc]
    exact (unread_eq_next cursor).symm
  | rest =>
    have nothing : cursor.takeRest.2.unread = [] := by
      simp only [takeRest, unread_advance, List.drop_length]
    simp only [Call.consumed, Call.after, nothing, List.append_nil]

theorem unread_run_of_nil (ended : cursor.unread = []) (calls : List Call) :
    (cursor.run calls).unread = [] := by
  induction calls generalizing cursor with
  | nil => exact ended
  | cons call calls ih =>
    have division := consumed_append_after cursor call
    rw [ended, List.append_eq_nil_iff] at division
    exact ih division.2

theorem unread_takeRest (cursor : Cursor) : cursor.takeRest.2.unread = [] := by
  have division := consumed_append_after cursor .rest
  exact List.append_right_eq_self.mp division

/-- Nothing is lost in any run of calls. What they consume is in front of what is unread, the column counts
its characters and the offset its bytes, so the rest is cut where it begins. Every token takes its characters
from there, the tokens up to the end take all of them, and behind the rest there is nothing. -/
theorem run_lossless (text : List Char) (calls : List Call) :
    let cursor := (start text).run calls
    let consumed := (start text).consumed calls
    (consumed ++ cursor.unread = text ∧ cursor.column = 1 + consumed.length ∧
      cursor.offset = Text.byteSize consumed ∧ Text.dropBytes? cursor.offset text = some cursor.unread) ∧
    cursor.Takes ∧
    (∃ count ≤ cursor.unread.length,
      (∀ earlier < count, (cursor.run (List.replicate earlier .next)).next.1 ≠ .eof) ∧
      (cursor.run (List.replicate count .next)).next.1 = .eof ∧
      cursor.consumed (List.replicate (count + 1) .next) = cursor.unread) ∧
    cursor.takeRest.1 = Text.trim cursor.unread ∧
    ∀ more, let later := cursor.takeRest.2.run more
      later.next.1 = .eof ∧ later.takeRest.1 = [] ∧ later.column = 1 + text.length := by
  intro cursor consumed
  have reads : cursor.Reads consumed := reads_run_start text calls
  have whole : cursor.text = text := text_run (start text) calls
  have division := reads.text
  have cut := reads.dropBytes?
  rw [whole] at division cut
  refine ⟨⟨division.symm, by rw [reads.column, Nat.add_comm], reads.offset, cut⟩, takes_next cursor,
    exists_eof cursor, reads.takeRest_fst, ?_⟩
  intro more later
  have read : later.Reads (consumed ++ cursor.unread ++ _) := reads.takeRest.run more
  have ended : later.unread = [] := unread_run_of_nil (unread_takeRest cursor) more
  have same : later.text = text := (text_run cursor.takeRest.2 more).trans ((text_after cursor .rest).trans whole)
  have all := read.text
  rw [same, ended, List.append_nil] at all
  refine ⟨?_, ?_, ?_⟩
  · rw [next_fst, ended]
    rfl
  · rw [read.takeRest_fst, ended]
    rfl
  · rw [read.column, ← all, Nat.add_comm]

end Settings.Cursor
