import Lox.Token.Scanner

/-!
Cutting a source text into segments. Every segment is the longest match at its start, no
character is lost (`flatMap_chars_segments`), and no segment is empty: `Segment.cut` counts the
characters beyond the first, so a step always makes progress.
-/

namespace Lox

/-- What a stretch of source text is. -/
inductive Shape
  | layout
  | comment
  | mark (kind : TokenKind)
  | number
  | word
  | string
  | openString
  | stray
deriving DecidableEq, Repr, Inhabited

structure Segment where
  shape : Shape
  chars : List Char
deriving DecidableEq, Repr, Inhabited

namespace Segment

open Scanner (isLetter isWordChar plainMark? equalsMark?)

/-- Layout means nothing but the end of what stands before it. -/
def isLayout (c : Char) : Bool :=
  c = ' ' || c = '\r' || c = '\t' || c = '\n'

theorem isLayout_iff {c : Char} : isLayout c ↔ c = ' ' ∨ c = '\r' ∨ c = '\t' ∨ c = '\n' := by
  simp [isLayout, or_assoc]

/-! ## The cut -/

/-- The number of characters at the front that satisfy `p`. -/
def leading (p : Char → Bool) (rest : List Char) : Nat :=
  (rest.takeWhile p).length

@[simp] theorem leading_nil (p : Char → Bool) : leading p [] = 0 := rfl

@[simp] theorem leading_cons_of_pos {p : Char → Bool} {c : Char} {rest : List Char} (h : p c) :
    leading p (c :: rest) = leading p rest + 1 := by
  simp [leading, h]

@[simp] theorem leading_cons_of_neg {p : Char → Bool} {c : Char} {rest : List Char} (h : ¬p c) :
    leading p (c :: rest) = 0 := by
  simp [leading, h]

theorem take_leading (p : Char → Bool) (rest : List Char) :
    rest.take (leading p rest) = rest.takeWhile p :=
  (List.prefix_iff_eq_take.mp (List.takeWhile_prefix p)).symm

theorem drop_leading (p : Char → Bool) (rest : List Char) :
    rest.drop (leading p rest) = rest.dropWhile p := by
  refine List.append_cancel_left (show rest.takeWhile p ++ _ = rest.takeWhile p ++ _ from ?_)
  rw [List.takeWhile_append_dropWhile, ← take_leading, List.take_append_drop]

/-- What ends a run before the text does. -/
theorem drop_leading_of_lt {p : Char → Bool} {rest : List Char}
    (h : leading p rest < rest.length) :
    ∃ d more, p d = false ∧ rest.drop (leading p rest) = d :: more := by
  match hd : rest.drop (leading p rest) with
  | [] => exact absurd (List.drop_eq_nil_iff.mp hd) (Nat.not_le_of_lt h)
  | d :: more =>
    rw [drop_leading] at hd
    have hp := List.head_dropWhile_not p (by simp [hd] : rest.dropWhile p ≠ [])
    simp only [hd, List.head_cons] at hp
    exact ⟨d, more, hp, rfl⟩

theorem takeWhile_eq_self_of_not_lt {p : Char → Bool} {rest : List Char}
    (h : ¬leading p rest < rest.length) : rest.takeWhile p = rest :=
  (List.takeWhile_prefix p).eq_of_length_le (Nat.le_of_not_lt h)

/-- A fraction is a dot and at least one digit. -/
def fraction (rest : List Char) : Nat :=
  match rest with
  | '.' :: d :: more => if d.isDigit then 2 + leading Char.isDigit more else 0
  | _ => 0

theorem fraction_eq (rest : List Char) :
    fraction rest = 0 ∨ ∃ d more, d.isDigit ∧ rest = '.' :: d :: more ∧
      fraction rest = 2 + leading Char.isDigit more := by
  unfold fraction
  split
  · next d more =>
    split
    · next hd => exact .inr ⟨d, more, hd, rfl, rfl⟩
    · exact .inl rfl
  · exact .inl rfl

theorem fraction_of_digit {d : Char} (hd : d.isDigit) (more : List Char) :
    fraction ('.' :: d :: more) = 2 + leading Char.isDigit more := by
  simp [fraction, hd]

theorem fraction_of_not_digit {d : Char} (hd : ¬d.isDigit) (more : List Char) :
    fraction ('.' :: d :: more) = 0 := by
  simp [fraction, hd]

theorem fraction_of_ne {c : Char} (hc : c ≠ '.') (rest : List Char) :
    fraction (c :: rest) = 0 := by
  unfold fraction
  split
  · next heq => exact absurd (List.cons.inj heq).1 hc
  · rfl

/-- The shape of the segment that starts with `c`, and how much of `rest` belongs to it. -/
def cut (c : Char) (rest : List Char) : Shape × Nat :=
  match plainMark? c with
  | some kind => (.mark kind, 0)
  | none => match equalsMark? c with
    | some (alone, withEquals) =>
      if rest.head? = some '=' then (.mark withEquals, 1) else (.mark alone, 0)
    | none =>
      if c = '/' then
        if rest.head? = some '/' then (.comment, leading (· ≠ '\n') rest) else (.mark .slash, 0)
      else if isLayout c then (.layout, 0)
      else if c = '"' then
        let inside := leading (· ≠ '"') rest
        if inside < rest.length then (.string, inside + 1) else (.openString, inside)
      else if c.isDigit then
        let whole := leading Char.isDigit rest
        (.number, whole + fraction (rest.drop whole))
      else if isLetter c then (.word, leading isWordChar rest)
      else (.stray, 0)

/-- The segment at the front of `c :: rest`. -/
def first (c : Char) (rest : List Char) : Segment :=
  ⟨(cut c rest).1, c :: rest.take (cut c rest).2⟩

theorem first_eq {c : Char} {rest : List Char} {shape : Shape} {n : Nat}
    (h : cut c rest = (shape, n)) : first c rest = ⟨shape, c :: rest.take n⟩ := by
  rw [first, h]

/-- What the first segment leaves. -/
def afterFirst (c : Char) (rest : List Char) : List Char :=
  rest.drop (cut c rest).2

/-- The segments of a text, each as long as it can be. -/
def segments : List Char → List Segment
  | [] => []
  | c :: rest => first c rest :: segments (afterFirst c rest)
termination_by source => source.length
decreasing_by
  simp only [afterFirst, List.length_drop, List.length_cons]
  omega

/-! ## The cut at each class of characters -/

section
variable {c : Char} (rest : List Char)

theorem cut_of_plainMark {kind : TokenKind} (h : plainMark? c = some kind) :
    cut c rest = (.mark kind, 0) := by
  simp [cut, h]

theorem plainMark?_eq_none_of_equalsMark? {kinds : TokenKind × TokenKind}
    (h : equalsMark? c = some kinds) : plainMark? c = none := by
  unfold equalsMark? at h
  split at h <;> first | rfl | cases h

theorem cut_of_equalsMark {alone withEquals : TokenKind}
    (h : equalsMark? c = some (alone, withEquals)) :
    cut c rest =
      if rest.head? = some '=' then (.mark withEquals, 1) else (.mark alone, 0) := by
  simp [cut, h, plainMark?_eq_none_of_equalsMark? h]

theorem cut_slash :
    cut '/' rest =
      if rest.head? = some '/' then (.comment, leading (· ≠ '\n') rest) else (.mark .slash, 0) :=
  rfl

theorem cut_of_isLayout (h : isLayout c) : cut c rest = (.layout, 0) := by
  rcases isLayout_iff.mp h with rfl | rfl | rfl | rfl <;> rfl

theorem cut_quote :
    cut '"' rest =
      if leading (· ≠ '"') rest < rest.length then (.string, leading (· ≠ '"') rest + 1)
      else (.openString, leading (· ≠ '"') rest) := rfl

/-- What no class of characters before the letters and digits has. -/
theorem marks_of_isWordChar (h : isWordChar c) :
    plainMark? c = none ∧ equalsMark? c = none ∧ c ≠ '/' ∧ isLayout c = false ∧ c ≠ '"' := by
  refine ⟨?_, ?_, ?_, ?_, ?_⟩
  · unfold plainMark?
    split <;> first | rfl | cases h
  · unfold equalsMark?
    split <;> first | rfl | cases h
  · rintro rfl
    cases h
  · refine Bool.eq_false_iff.mpr fun hl => ?_
    rcases isLayout_iff.mp hl with rfl | rfl | rfl | rfl <;> cases h
  · rintro rfl
    cases h

theorem cut_of_isDigit (h : c.isDigit) :
    cut c rest = (.number, leading Char.isDigit rest +
      fraction (rest.drop (leading Char.isDigit rest))) := by
  obtain ⟨h1, h2, h3, h4, h5⟩ := marks_of_isWordChar (c := c) (by simp [isWordChar, h])
  simp [cut, h1, h2, h3, h4, h5, h]

theorem isDigit_of_isLetter (h : isLetter c) : c.isDigit = false := by
  refine Bool.eq_false_iff.mpr fun hd => ?_
  change (decide ('A'.val ≤ c.val ∧ c.val ≤ 'Z'.val) ||
    decide ('a'.val ≤ c.val) && decide (c.val ≤ 'z'.val) || decide (c = '_')) = true at h
  simp only [Bool.or_eq_true, Bool.and_eq_true, decide_eq_true_eq] at h
  simp only [Char.isDigit, Bool.and_eq_true, decide_eq_true_eq] at hd
  rcases h with (⟨h, -⟩ | ⟨h, -⟩) | rfl
  · exact absurd (UInt32.le_trans h hd.2) (by decide)
  · exact absurd (UInt32.le_trans h hd.2) (by decide)
  · exact absurd hd.2 (by decide)

theorem cut_of_isLetter (h : isLetter c) : cut c rest = (.word, leading isWordChar rest) := by
  obtain ⟨h1, h2, h3, h4, h5⟩ := marks_of_isWordChar (c := c) (by simp [isWordChar, h])
  simp [cut, h1, h2, h3, h4, h5, isDigit_of_isLetter h, h]

end

/-! ## Nothing is lost -/

theorem leading_le (p : Char → Bool) (rest : List Char) : leading p rest ≤ rest.length :=
  (List.takeWhile_sublist p).length_le

theorem fraction_le (rest : List Char) : fraction rest ≤ rest.length := by
  unfold fraction
  split
  · next d more =>
    have := leading_le Char.isDigit more
    simp only [List.length_cons]
    split <;> omega
  · simp

/-- The cut never reaches beyond the end of the text. -/
theorem cut_le (c : Char) (rest : List Char) : (cut c rest).2 ≤ rest.length := by
  have hs := leading_le (· ≠ '"') rest
  have hc := leading_le (· ≠ '\n') rest
  have hw := leading_le isWordChar rest
  have hd := leading_le Char.isDigit rest
  have hf := fraction_le (rest.drop (leading Char.isDigit rest))
  simp only [List.length_drop] at hf
  have he : rest.head? = some '=' → 1 ≤ rest.length := by
    cases rest <;> simp
  unfold cut
  split
  · simp
  split
  · split
    · next h => exact he h
    · simp
  split
  · split
    · exact hc
    · simp
  split
  · simp
  split
  · dsimp only
    split <;> dsimp only <;> omega
  split
  · dsimp only
    omega
  split
  · exact hw
  · simp

theorem chars_first_append (c : Char) (rest : List Char) :
    (first c rest).chars ++ afterFirst c rest = c :: rest := by
  simp [first, afterFirst]

theorem flatMap_chars_segments (source : List Char) :
    (segments source).flatMap chars = source := by
  fun_induction segments source with
  | case1 => rfl
  | case2 c rest ih => simp [ih, chars_first_append]

/-! ## Reading a segment -/

def text (s : Segment) : String :=
  String.ofList s.chars

/-- The number of line breaks inside. -/
def lineBreaks (s : Segment) : Nat :=
  s.chars.count '\n'

/-- The characters between the quotes of a string. -/
def inside (s : Segment) : String :=
  String.ofList s.chars.tail.dropLast

end Segment

/-! ## Tokens and errors among the segments -/

/-- A segment and the line on which it starts. -/
structure PlacedSegment where
  line : Nat
  segment : Segment
deriving DecidableEq, Repr, Inhabited

namespace Segment

/-- The kind of token that a segment is, if it is one. -/
def kind? (s : Segment) : Option TokenKind :=
  match s.shape with
  | .mark kind => some kind
  | .number => some .number
  | .word => some (.ofWord s.text)
  | .string => some .string
  | .layout | .comment | .openString | .stray => none

def literal? (s : Segment) : Option Literal :=
  match s.shape with
  | .number => some (.number ((Decimal.ofText? s.chars).getD Decimal.notANumber))
  | .string => some (.string s.inside)
  | _ => none

/-- Places consecutive segments, the first one on the given line. -/
def place : Nat → List Segment → List PlacedSegment
  | _, [] => []
  | line, s :: rest => ⟨line, s⟩ :: place (line + s.lineBreaks) rest

end Segment

namespace PlacedSegment

/-- A token stands on the line on which its last character does. -/
def token? (p : PlacedSegment) : Option Token :=
  p.segment.kind?.map fun kind =>
    ⟨p.line + p.segment.lineBreaks, kind, p.segment.text, p.segment.literal?⟩

/-- An error stands on the line on which its first character does. -/
def error? (p : PlacedSegment) : Option LexicalError :=
  match p.segment.shape with
  | .openString => some ⟨p.line, .unterminatedString⟩
  | .stray => p.segment.chars.head?.map fun c => ⟨p.line, .invalidCharacter c⟩
  | _ => none

/-- No segment is both a token and an error. -/
theorem error?_eq_none {segment : Segment} {kind : TokenKind} (line : Nat)
    (h : segment.kind? = some kind) : (PlacedSegment.mk line segment).error? = none := by
  obtain ⟨shape, chars⟩ := segment
  cases shape <;> first | rfl | cases h

end PlacedSegment

end Lox
