import Settings.Proofs.Token.Leading

namespace Settings

namespace Text

/-- The number of bytes of a text in UTF-8. -/
def byteSize : List Char → Nat
  | [] => 0
  | c :: rest => c.utf8Size + byteSize rest

theorem byteSize_append (first second : List Char) :
    byteSize (first ++ second) = byteSize first + byteSize second := by
  induction first with
  | nil => simp only [List.nil_append, byteSize, Nat.zero_add]
  | cons c first ih => simp only [List.cons_append, byteSize, ih, Nat.add_assoc]

/-- The bytes of some characters end with the last of them. -/
theorem dropBytes?_append (before rest : List Char) :
    dropBytes? (byteSize before) (before ++ rest) = some rest := by
  induction before with
  | nil => cases rest <;> rfl
  | cons c before ih =>
    have size : byteSize (c :: before) = c.utf8Size + byteSize before := rfl
    have positive := c.utf8Size_pos
    obtain ⟨bytes, shape⟩ : ∃ bytes, byteSize (c :: before) = bytes + 1 :=
      Nat.exists_eq_add_of_le' (by omega)
    have left : bytes + 1 - c.utf8Size = byteSize before := by omega
    rw [shape, List.cons_append, dropBytes?, if_pos (by omega), left, ih]

end Text

namespace Cursor

/-- The counts of a cursor agree with what was read of its text. -/
structure Reads (cursor : Cursor) (before : List Char) : Prop where
  text : cursor.text = before ++ cursor.unread
  offset : cursor.offset = Text.byteSize before
  column : cursor.column = before.length + 1

variable {cursor : Cursor} {before : List Char}

theorem reads_start (text : List Char) : (start text).Reads [] :=
  ⟨rfl, rfl, rfl⟩

theorem Reads.bump (reads : cursor.Reads before) : cursor.bump.Reads (before ++ cursor.unread.take 1) := by
  obtain ⟨text, offset, column⟩ := reads
  unfold Cursor.bump
  split
  · rename_i ended
    simp only [ended, List.take_nil, List.append_nil]
    exact ⟨text, offset, column⟩
  · rename_i c rest unread
    simp only [unread, List.take_succ_cons, List.take_zero]
    refine ⟨?_, ?_, ?_⟩
    · simp only [text, unread, List.append_assoc, List.singleton_append]
    · simp only [offset, Text.byteSize_append, Text.byteSize, Nat.add_zero]
    · simp only [column, List.length_append, List.length_singleton]

theorem Reads.advance (reads : cursor.Reads before) (count : Nat) :
    (cursor.advance count).Reads (before ++ cursor.unread.take count) := by
  induction count generalizing cursor before with
  | zero => simpa only [Cursor.advance, List.take_zero, List.append_nil] using reads
  | succ count ih =>
    have rest := ih reads.bump
    rw [unread_bump, List.append_assoc, ← List.take_add, Nat.add_comm 1] at rest
    exact rest

theorem unread_skipBlanks (cursor : Cursor) :
    cursor.skipBlanks.unread = Text.trimStart cursor.unread := by
  have dropped : (cursor.unread.takeWhile Text.isBlank ++ cursor.unread.dropWhile Text.isBlank).drop
      (cursor.unread.takeWhile Text.isBlank).length = cursor.unread.dropWhile Text.isBlank :=
    List.drop_left
  rw [List.takeWhile_append_dropWhile] at dropped
  rw [skipBlanks, unread_advance, dropped, Text.trimStart]

theorem next_fst (cursor : Cursor) : cursor.next.1 = Token.leading (Text.trimStart cursor.unread) := by
  rw [← unread_skipBlanks]
  rfl

/-- What a token leaves unread is what stands behind its characters. -/
theorem unread_next {rest : List Char}
    (shape : Text.trimStart cursor.unread = cursor.next.1.spelling ++ rest) :
    cursor.next.2.unread = rest := by
  have dropped : cursor.next.2.unread = cursor.skipBlanks.unread.drop cursor.next.1.spelling.length :=
    unread_advance cursor.skipBlanks cursor.next.1.spelling.length
  rw [dropped, unread_skipBlanks, shape, List.drop_left]

/-- The blanks in front of the next token. -/
def blanks (cursor : Cursor) : List Char :=
  cursor.unread.takeWhile Text.isBlank

/-- A token takes its own characters and the blanks in front of it. -/
theorem unread_eq_next (cursor : Cursor) :
    cursor.unread = cursor.blanks ++ (cursor.next.1.spelling ++ cursor.next.2.unread) := by
  obtain ⟨rest, shape⟩ := Token.spelling_leading_prefix (Text.trimStart cursor.unread)
  rw [← next_fst] at shape
  rw [unread_next shape.symm, shape]
  exact List.takeWhile_append_dropWhile.symm

theorem Reads.next (reads : cursor.Reads before) :
    cursor.next.2.Reads (before ++ (cursor.blanks ++ cursor.next.1.spelling)) := by
  have shape := unread_eq_next cursor
  have ready : cursor.skipBlanks.unread = cursor.next.1.spelling ++ cursor.next.2.unread := by
    have dropped : cursor.skipBlanks.unread = cursor.unread.drop cursor.blanks.length :=
      unread_advance cursor cursor.blanks.length
    rw [dropped, shape, List.drop_left]
  have gap := reads.advance cursor.blanks.length
  have token := @Reads.advance cursor.skipBlanks _ gap cursor.next.1.spelling.length
  have taken : cursor.unread.take cursor.blanks.length = cursor.blanks := by rw [shape, List.take_left]
  rw [ready, taken, List.take_left, List.append_assoc] at token
  exact token

/-- The text is cut where the unread characters begin. -/
theorem Reads.dropBytes? (reads : cursor.Reads before) :
    Text.dropBytes? cursor.offset cursor.text = some cursor.unread := by
  rw [reads.text, reads.offset, Text.dropBytes?_append]

theorem Reads.takeRest_fst (reads : cursor.Reads before) : cursor.takeRest.1 = Text.trim cursor.unread := by
  simp only [takeRest, reads.dropBytes?, Option.map_some, Option.getD_some]

theorem Reads.takeRest (reads : cursor.Reads before) : cursor.takeRest.2.Reads (before ++ cursor.unread) := by
  have rest := reads.advance cursor.unread.length
  rw [List.take_length] at rest
  exact rest

end Cursor

end Settings
