import Settings.Proofs.Literal.Grammar
import Settings.Proofs.Value.Parts

namespace Settings.Literal

open Text (Digits sign)
open Value (Part)

/-- Induction over the elements of a literal. -/
@[elab_as_elim]
theorem Denotes.elementwise {motive : (text : List Char) → (v : Value) → Denotes text v → Prop}
    (string : ∀ characters, motive _ _ (.string characters))
    (number : ∀ text n denotes, motive text (.number n) denotes)
    (array : ∀ segments items nonempty closed elements,
      List.Forall₂ (fun element v => ∃ denotes, motive element v denotes)
        ((segments.map Text.trim).filter (· ≠ [])) items →
      motive _ _ (@Denotes.array segments items nonempty closed elements))
    {text : List Char} {v : Value} (denotes : Denotes text v) : motive text v denotes :=
  @Denotes.rec motive
    (fun elements items _ => List.Forall₂ (fun element v => ∃ denotes, motive element v denotes) elements items)
    string (fun digits integral => number _ _ (.int digits integral))
    (fun whole fraction nearest => number _ _ (.float whole fraction nearest))
    (fun nonempty closed elements all => array _ _ nonempty closed elements all) .nil
    (fun first _ holds later => .cons ⟨first, holds⟩ later) text v denotes

theorem exists_segment_of_mem {R : List Char → Value → Prop} {segments : List (List Char)}
    {items : List Value} {item : Value}
    (all : List.Forall₂ R ((segments.map Text.trim).filter (· ≠ [])) items) (member : item ∈ items) :
    ∃ segment ∈ segments, R (Text.trim segment) item := by
  obtain ⟨element, kept, related⟩ := exists_left_of_mem all member
  obtain ⟨segment, inside, rfl⟩ := List.mem_map.mp (List.mem_filter.mp kept).1
  exact ⟨segment, inside, related⟩

theorem mem_array_of_mem {segments : List (List Char)} {segment : List Char} {c : Char}
    (inside : segment ∈ segments) (member : c ∈ Text.trim segment) :
    c ∈ '{' :: (['.'].intercalate segments ++ ['}']) := by
  have joined : c ∈ ['.'].intercalate segments :=
    mem_intercalate_iff.mpr (Or.inl ⟨segment, inside, Text.mem_of_mem_trim member⟩)
  exact List.mem_cons_of_mem _ (List.mem_append_left _ joined)

/-- The characters of every string in a literal stand in the literal. -/
theorem Denotes.mem_of_part_string {text : List Char} {v : Value} (denotes : Denotes text v) {s : String}
    (part : Part (.string s) v) {c : Char} (member : c ∈ s.toList) : c ∈ text := by
  induction denotes using Denotes.elementwise with
  | string characters =>
    cases part.eq_of_not_array nofun
    rw [String.toList_ofList] at member
    exact List.mem_cons_of_mem _ (List.mem_append_left _ member)
  | number text n => cases part.eq_of_not_array nofun
  | array segments items _ _ _ all =>
    cases part with
    | item inside part =>
      obtain ⟨segment, found, -, stands⟩ := exists_segment_of_mem all inside
      exact mem_array_of_mem found (stands part)

theorem Denotes.exists_of_float {text : List Char} {x : Double} (denotes : Denotes text (.float x)) :
    ∃ negative whole fraction code, Digits whole ∧ Digits fraction ∧
      Format.binary64.Nearest (Nat.ofDigitChars 10 (whole ++ fraction) 0 / 10 ^ fraction.length) code ∧
      text = sign negative ++ whole ++ '.' :: fraction ∧ x = .ofCode negative code := by
  generalize value : Value.float x = v at denotes
  cases denotes with
  | float whole fraction nearest =>
    cases value
    exact ⟨_, _, _, _, whole, fraction, nearest, rfl, rfl⟩
  | string => cases value
  | int => cases value
  | array => cases value

theorem ordinary_of_sign {negative : Bool} {whole : List Char} (digits : Digits whole) :
    ∀ c ∈ sign negative ++ whole, c ≠ '\'' ∧ c ≠ '{' ∧ c ≠ '}' ∧ c ≠ '.' := by
  intro c member
  rcases List.mem_append.mp member with minus | digit
  · cases negative with
    | true =>
      rw [List.mem_singleton.mp minus]
      decide
    | false => cases minus
  · have numeric := digits.numeric c digit
    refine ⟨?_, ?_, ?_, ?_⟩ <;>
    · rintro rfl
      cases numeric

/-- A float does not stand in a closed segment, for its point would be outside all braces. -/
theorem not_denotes_float_of_closed {segment : List Char} (closed : Closed segment) {x : Double} :
    ¬ Denotes (Text.trim segment) (.float x) := by
  intro denotes
  obtain ⟨negative, whole, fraction, _, digits, _, _, shape, _⟩ := denotes.exists_of_float
  obtain ⟨before, after, blankBefore, _, division⟩ := Text.exists_trim segment
  obtain ⟨quoted, inside⟩ := (closed_iff_through segment).mp closed
  have split : segment = before ++ ((sign negative ++ whole) ++ ('.' :: (fraction ++ after))) := by
    rw [division, shape]
    simp only [List.append_assoc, List.cons_append]
  rw [split, Nesting.through_append, Nesting.through_of_ordinary _ (ordinary_of_blank blankBefore),
    Option.bind_some, Nesting.through_append, Nesting.through_of_ordinary _ (ordinary_of_sign digits),
    Option.bind_some, Nesting.through, if_pos ⟨rfl, rfl⟩] at inside
  cases inside

/-- The only part of a literal that can be a float is the whole. -/
theorem Denotes.eq_of_part_float {text : List Char} {v : Value} (denotes : Denotes text v) {x : Double}
    (part : Part (.float x) v) : v = .float x := by
  induction denotes using Denotes.elementwise with
  | string characters => cases part.eq_of_not_array nofun
  | number text n => exact (part.eq_of_not_array nofun).symm
  | array segments items _ closed _ all =>
    cases part with
    | item inside part =>
      obtain ⟨segment, found, denotes, stands⟩ := exists_segment_of_mem all inside
      rw [stands part] at denotes
      exact absurd denotes (not_denotes_float_of_closed (closed segment found))

theorem Denotes.ne_nan {text : List Char} {v : Value} (denotes : Denotes text v) : v ≠ .float .nan := by
  rintro rfl
  obtain ⟨negative, _, _, code, _, _, _, _, value⟩ := denotes.exists_of_float
  rw [Binary.ofCode] at value
  split at value <;> cases value

/-- A literal on one line has a sound value. -/
theorem Denotes.sound {text : List Char} {v : Value} (denotes : Denotes text v) (line : '\n' ∉ text) :
    v.Sound where
  line part member := line (denotes.mem_of_part_string part member)
  array outer inner := by
    have whole := denotes.eq_of_part_float (inner.trans outer)
    rw [whole] at outer
    cases outer.eq_of_not_array nofun
  number part := denotes.ne_nan (denotes.eq_of_part_float part)

end Settings.Literal
