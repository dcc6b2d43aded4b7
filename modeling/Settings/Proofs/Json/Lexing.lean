import Settings.Json.Rendering
import Settings.Proofs.Json.Numbers

namespace Settings.Json

theorem hexDigit?_digitChar : ∀ n < 16, hexDigit? (Nat.digitChar n) = some n := by
  decide

/-- The four digits that a control character is escaped with stand for it. -/
theorem codeUnits?_control {c : Char} (control : c.toNat < 0x20) (rest : List Char) :
    codeUnits? ('0' :: '0' :: Nat.digitChar (c.toNat / 16) :: Nat.digitChar (c.toNat % 16) :: rest) =
      some (c, rest) := by
  have high := hexDigit?_digitChar (c.toNat / 16) (by omega)
  have low := hexDigit?_digitChar (c.toNat % 16) (by omega)
  have zero : hexDigit? '0' = some 0 := rfl
  have digits : [0, 0, c.toNat / 16, c.toNat % 16].foldl (16 * · + ·) 0 = c.toNat := by
    simp only [List.foldl_cons, List.foldl_nil]
    omega
  have unit : codeUnit? ('0' :: '0' :: Nat.digitChar (c.toNat / 16) :: Nat.digitChar (c.toNat % 16) ::
      rest) = some (c.toNat, rest) := by
    simp only [codeUnit?, List.mapM_cons, List.mapM_nil, zero, high, low, Option.pure_def,
      Option.bind_eq_bind, Option.bind_some, Option.map_some, digits]
  rw [codeUnits?, unit]
  dsimp only
  rw [if_pos (Or.inl (by omega)), Char.ofNat_toNat]

/-- Every character inside a string literal is read as itself. -/
theorem character?_escape (c : Char) (rest : List Char) :
    character? (escape c ++ rest) = some (c, rest) := by
  unfold escape
  split_ifs with quote backslash backspace formFeed newline carriageReturn tab control
  · rw [quote]
    rfl
  · rw [backslash]
    rfl
  · rw [backspace]
    rfl
  · rw [formFeed]
    rfl
  · rw [newline]
    rfl
  · rw [carriageReturn]
    rfl
  · rw [tab]
    rfl
  · exact codeUnits?_control control rest
  · rw [List.singleton_append, character?, if_neg backslash, if_neg control]

/-- No character inside a string literal is read as the closing quote. -/
theorem head?_escape (c : Char) (rest : List Char) : (escape c ++ rest).head? ≠ some '"' := by
  unfold escape
  split_ifs with quote
  case neg =>
    intro first
    exact quote (Option.some.inj first)
  all_goals
    intro first
    cases first

theorem characters?_flatMap_escape (text rest : List Char) :
    characters? (text.flatMap escape ++ '"' :: rest) = some (text, rest) := by
  induction text with
  | nil =>
    rw [List.flatMap_nil, List.nil_append, characters?]
    rfl
  | cons c text ih =>
    rw [List.flatMap_cons, List.append_assoc, characters?, if_neg (head?_escape c _)]
    split
    · rename_i none
      rw [character?_escape] at none
      cases none
    · rename_i first
      rw [character?_escape] at first
      cases first
      rw [ih]
      rfl

/-- No word goes on in a text. -/
def Ended (text : List Char) : Prop :=
  ∀ c, text.head? = some c → isWord c = false

/-- The pieces that a text is divided into, whatever text stands behind it, except that a word must not
go on there. -/
def Lexes (text : List Char) (pieces : List Lexeme) : Prop :=
  ∀ rest, Ended rest → lexemes (text ++ rest) = (lexemes rest).map (pieces ++ ·)

theorem Ended.append {text rest : List Char} (first : Ended text) (second : Ended rest) :
    Ended (text ++ rest) := by
  cases text with
  | nil => exact second
  | cons c text => exact first

theorem Ended.cons {c : Char} (other : isWord c = false) (rest : List Char) : Ended (c :: rest) := by
  rintro _ ⟨⟩
  exact other

theorem lexes_nil : Lexes [] [] := by
  intro rest ended
  exact Option.map_id_fun ▸ rfl

theorem Lexes.append {first second : List Char} {pieces later : List Lexeme}
    (front : Lexes first pieces) (ended : Ended second) (behind : Lexes second later) :
    Lexes (first ++ second) (pieces ++ later) := by
  intro rest boundary
  rw [List.append_assoc, front _ (ended.append boundary), behind rest boundary, Option.map_map]
  refine congrArg (fun f => Option.map f (lexemes rest)) (funext ?_)
  intro pieces
  exact (List.append_assoc _ _ _).symm

theorem Lexes.blank {c : Char} (blank : isBlank c = true) {text : List Char} {pieces : List Lexeme}
    (behind : Lexes text pieces) : Lexes (c :: text) pieces := by
  intro rest boundary
  rw [List.cons_append, lexemes, if_pos blank, behind rest boundary]

theorem punctuation?_of_isBlank {c : Char} (blank : isBlank c = true) : punctuation? c = none := by
  simp only [isBlank, Bool.or_eq_true, decide_eq_true_eq] at blank
  rcases blank with ((rfl | rfl) | rfl) | rfl <;> rfl

theorem punctuation?_of_isWord {c : Char} (letter : isWord c = true) : punctuation? c = none := by
  unfold punctuation?
  split
  case h_7 => rfl
  all_goals exact absurd letter (by decide)

theorem not_isBlank_of_isWord {c : Char} (letter : isWord c = true) : ¬ isBlank c = true := by
  simp only [isBlank, Bool.or_eq_true, decide_eq_true_eq]
  rintro (((rfl | rfl) | rfl) | rfl) <;> exact absurd letter (by decide)

theorem Lexes.mark {c : Char} {mark : Lexeme} (single : punctuation? c = some mark) {text : List Char}
    {pieces : List Lexeme} (behind : Lexes text pieces) : Lexes (c :: text) (mark :: pieces) := by
  intro rest boundary
  have blank : ¬ isBlank c = true := fun blank => by
    rw [punctuation?_of_isBlank blank] at single
    cases single
  have quote : c ≠ '"' := by
    rintro rfl
    cases single
  rw [List.cons_append, lexemes, if_neg blank, if_neg quote]
  split
  · rename_i same
    rw [single] at same
    cases same
    rw [behind rest boundary, Option.map_map]
    rfl
  · rename_i none
    rw [single] at none
    cases none

theorem lexes_quote (s : String) : Lexes (quote s) [.string s] := by
  intro rest boundary
  have text : quote s ++ rest = '"' :: (s.toList.flatMap escape ++ '"' :: rest) := by
    rw [quote, List.cons_append, List.cons_append, List.append_assoc]
    rfl
  have blank : ¬ isBlank '"' = true := by decide
  rw [text, lexemes, if_neg blank, if_pos rfl]
  split
  · rename_i none
    rw [characters?_flatMap_escape] at none
    cases none
  · rename_i found
    rw [characters?_flatMap_escape] at found
    cases found
    rw [String.ofList_toList]
    rfl

theorem lexes_word {text : List Char} {datum : Datum} (word : Word text datum) :
    Lexes text [.scalar datum] := by
  intro rest boundary
  obtain ⟨letters, stands⟩ := word
  cases text with
  | nil => cases stands
  | cons c text =>
    have letter := letters c List.mem_cons_self
    have quote : c ≠ '"' := by
      rintro rfl
      exact absurd letter (by decide)
    obtain ⟨taken, dropped⟩ := Text.takeWhile_run
      (fun c member => letters c (List.mem_cons_of_mem _ member)) boundary
    rw [List.cons_append, lexemes, if_neg (not_isBlank_of_isWord letter), if_neg quote,
      punctuation?_of_isWord letter, taken, dropped, stands]
    rfl

theorem Lexes.blanks {blanks text : List Char} {pieces : List Lexeme}
    (blank : ∀ c ∈ blanks, isBlank c = true) (behind : Lexes text pieces) :
    Lexes (blanks ++ text) pieces := by
  induction blanks with
  | nil => exact behind
  | cons c rest ih =>
    have later := ih fun c member => blank c (List.mem_cons_of_mem _ member)
    exact later.blank (blank c List.mem_cons_self)

theorem ended_of_blanks {blanks : List Char} (blank : ∀ c ∈ blanks, isBlank c = true) :
    Ended blanks := by
  intro c first
  by_contra letter
  exact not_isBlank_of_isWord (Bool.not_eq_false _ ▸ letter) (blank c (List.mem_of_mem_head? first))

/-- Blanks may stand behind every comma. -/
theorem lexes_intercalate {inner : List Char} (blank : ∀ c ∈ inner, isBlank c = true)
    {parts : List (List Char)} {pieces : List (List Lexeme)}
    (lexes : List.Forall₂ Lexes parts pieces) :
    Lexes (List.intercalate (',' :: inner) parts) (List.intercalate [.comma] pieces) := by
  induction lexes with
  | nil => exact lexes_nil
  | cons first later ih =>
    cases later with
    | nil =>
      rw [List.intercalate_singleton, List.intercalate_singleton]
      exact first
    | cons second rest =>
      rw [List.intercalate_cons_cons, List.intercalate_cons_cons, List.append_assoc,
        List.append_assoc]
      exact first.append (Ended.cons rfl _) ((ih.blanks blank).mark rfl)

theorem isBlank_of_mem_lineBreak {layout : Layout} {depth : Nat} {c : Char}
    (member : c ∈ layout.lineBreak depth) : isBlank c = true := by
  cases layout with
  | compact => cases member
  | pretty =>
    rcases List.mem_cons.mp member with rfl | blank
    · rfl
    · rw [List.eq_of_mem_replicate blank]
      rfl

/-- The layout of an array or object puts nothing but blanks between the pieces. -/
theorem lexes_enclose (layout : Layout) (depth : Nat) {first last : Char} {opening closing : Lexeme}
    (opens : punctuation? first = some opening) (closes : punctuation? last = some closing)
    (other : isWord last = false) {parts : List (List Char)} {pieces : List (List Lexeme)}
    (lexes : List.Forall₂ Lexes parts pieces) :
    Lexes (layout.enclose depth first last parts)
      (opening :: List.intercalate [.comma] pieces ++ [closing]) := by
  have blank (depth : Nat) : ∀ c ∈ layout.lineBreak depth, isBlank c = true :=
    fun _ member => isBlank_of_mem_lineBreak member
  have close := lexes_nil.mark closes
  have items := lexes_intercalate (blank (depth + 1)) lexes
  cases lexes with
  | nil => exact close.mark opens
  | cons head rest =>
    rw [Layout.enclose, List.append_assoc, List.append_assoc, List.cons_append]
    have ended := (ended_of_blanks (blank depth)).append (Ended.cons other [])
    exact ((items.append ended (close.blanks (blank depth))).blanks (blank (depth + 1))).mark opens

end Settings.Json
