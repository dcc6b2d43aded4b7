import Settings.Text

namespace Settings

/-- What the head of a statement is made of: a name and an operator. -/
inductive Token
  /-- An ASCII letter and the ASCII letters and digits after it. -/
  | ident (name : String)
  /-- The operator `:=`. -/
  | define
  /-- The operator `:`. -/
  | colon
  /-- A character that starts no other token and is not blank. -/
  | unexpected (c : Char)
  /-- The end of the text. -/
  | eof
  deriving DecidableEq, Repr

/-- The characters that a token stands for. -/
def Token.spelling : Token → List Char
  | .ident name => name.toList
  | .define => ":=".toList
  | .colon => ":".toList
  | .unexpected c => [c]
  | .eof => []

/-- The token that a text without leading blanks starts with. -/
def Token.leading : List Char → Token
  | [] => .eof
  | ':' :: '=' :: _ => .define
  | ':' :: _ => .colon
  | c :: rest =>
    if c.isAlpha then .ident (String.ofList (c :: rest.takeWhile Char.isAlphanum))
    else .unexpected c

/-- A position in a text. What was read before it is counted in bytes and in characters. -/
structure Cursor where
  /-- The whole text. -/
  text : List Char
  unread : List Char
  /-- The number of bytes that were read. -/
  offset : Nat
  /-- The column of the next unread character. Columns count characters, from one. -/
  column : Nat
  deriving DecidableEq, Repr

namespace Cursor

/-- The position at the start of a text. -/
def start (text : List Char) : Cursor :=
  ⟨text, text, 0, 1⟩

/-- The position behind the next character, or the end. -/
def bump (cursor : Cursor) : Cursor :=
  match cursor.unread with
  | [] => cursor
  | c :: rest =>
    { cursor with unread := rest, offset := cursor.offset + c.utf8Size, column := cursor.column + 1 }

/-- The position `count` characters further on, or the end. -/
def advance : Cursor → Nat → Cursor
  | cursor, 0 => cursor
  | cursor, count + 1 => advance cursor.bump count

/-- The position after the blanks that come next. -/
def skipBlanks (cursor : Cursor) : Cursor :=
  cursor.advance (cursor.unread.takeWhile Text.isBlank).length

/-- The next token and the position after it. Blanks before the token are skipped. -/
def next (cursor : Cursor) : Token × Cursor :=
  let ready := cursor.skipBlanks
  let token := Token.leading ready.unread
  (token, ready.advance token.spelling.length)

/-- The text from the position on without the blanks at its ends, and the position after all of it. It is
cut from the whole text at the byte of the position. -/
def takeRest (cursor : Cursor) : List Char × Cursor :=
  (((Text.dropBytes? cursor.offset cursor.text).map Text.trim).getD [], cursor.advance cursor.unread.length)

theorem unread_bump (cursor : Cursor) : cursor.bump.unread = cursor.unread.drop 1 := by
  unfold bump
  split <;> simp_all

theorem unread_advance (cursor : Cursor) (count : Nat) :
    (cursor.advance count).unread = cursor.unread.drop count := by
  induction count generalizing cursor with
  | zero => rfl
  | succ count ih => simp only [advance, ih, unread_bump, List.drop_drop, Nat.add_comm]

theorem text_bump (cursor : Cursor) : cursor.bump.text = cursor.text := by
  unfold bump
  split <;> rfl

theorem text_advance (cursor : Cursor) (count : Nat) : (cursor.advance count).text = cursor.text := by
  induction count generalizing cursor with
  | zero => rfl
  | succ count ih => simp only [advance, ih, text_bump]

end Cursor

end Settings
