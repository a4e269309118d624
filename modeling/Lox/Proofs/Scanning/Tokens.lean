import Lox.Proofs.Scanning.Munch
import Lox.Proofs.Scanning.Steps
import Mathlib.Data.List.Forall2
import Mathlib.Data.List.TakeWhile

/-!
The tokens and the errors of a scan belong one by one, and in order, to the segments into which the
text is munched.
-/

namespace Lox

namespace Shape

/-- The shapes that make a token. -/
def isToken : Shape → Bool
  | mark _ | number | word | string => true
  | layout | comment | openString | stray => false

/-- The shapes that make an error. -/
def isFault : Shape → Bool
  | openString | stray => true
  | layout | comment | mark _ | number | word | string => false

end Shape

namespace Segment

/-! ## What a segment yields -/

/-- The token that a segment is. A number denotes what its digits do, and only the spellings of the
reserved words are not names. -/
inductive Denotes : Segment → Token → Prop
  | mark (kind : TokenKind) (text : List Char) (line : Nat) :
    Denotes ⟨.mark kind, text⟩ ⟨line, kind, String.ofList text, none⟩
  | number {text : List Char} {x : Float} (h : Decimal.ofText? text = some x) (line : Nat) :
    Denotes ⟨.number, text⟩ ⟨line, .number, String.ofList text, some (.number x)⟩
  | keyword {text : List Char} {w : Keyword} (h : w.text = String.ofList text) (line : Nat) :
    Denotes ⟨.word, text⟩ ⟨line, .keyword w, String.ofList text, none⟩
  | identifier {text : List Char} (h : ∀ w : Keyword, w.text ≠ String.ofList text) (line : Nat) :
    Denotes ⟨.word, text⟩ ⟨line, .identifier, String.ofList text, none⟩
  | string (text : List Char) (line : Nat) :
    Denotes ⟨.string, '"' :: text ++ ['"']⟩
      ⟨line, .string, String.ofList ('"' :: text ++ ['"']), some (.string (String.ofList text))⟩

/-- The error that a segment is. -/
inductive Faults : Segment → LexicalError → Prop
  | openString (text : List Char) (line : Nat) :
    Faults ⟨.openString, text⟩ ⟨line, .unterminatedString⟩
  | stray (c : Char) (line : Nat) : Faults ⟨.stray, [c]⟩ ⟨line, .invalidCharacter c⟩

/-! ## Numbers and words -/

theorem takeWhile_digits {text : List Char} (h : ∀ d ∈ text, d.isDigit) (more : List Char) :
    (text ++ '.' :: more).takeWhile Char.isDigit = text := by
  rw [List.takeWhile_append_of_pos h, List.takeWhile_cons_of_neg (by decide), List.append_nil]

theorem dropWhile_digits {text : List Char} (h : ∀ d ∈ text, d.isDigit) (more : List Char) :
    (text ++ '.' :: more).dropWhile Char.isDigit = '.' :: more := by
  rw [List.dropWhile_append_of_pos h, List.dropWhile_cons_of_neg (by decide)]

/-- Every number of the language is a numeral. -/
theorem isNumeral_of_matches {text after : List Char} (h : Matches .number text after) :
    Decimal.isNumeral text := by
  cases h with
  | whole hne h =>
    have htake : text.takeWhile Char.isDigit = text := List.takeWhile_eq_self_iff.mpr h
    have hdrop : text.dropWhile Char.isDigit = [] := List.dropWhile_eq_nil_iff.mpr h
    simp only [Decimal.isNumeral, htake, hdrop]
    simpa using hne
  | decimal hne h hne' h' =>
    simp only [Decimal.isNumeral, takeWhile_digits h, dropWhile_digits h]
    simp only [List.all_eq_true.mpr h', List.isEmpty_eq_false_iff.mpr hne]
    rfl

theorem exists_ofText?_of_matches {text after : List Char} (h : Matches .number text after) :
    ∃ x, Decimal.ofText? text = some x :=
  ⟨_, by rw [Decimal.ofText?, if_pos (isNumeral_of_matches h)]⟩

theorem denotes_word (text : List Char) (line : Nat) :
    Denotes ⟨.word, text⟩ ⟨line, .ofWord (String.ofList text), String.ofList text, none⟩ := by
  unfold TokenKind.ofWord
  match hword : Keyword.ofText? (String.ofList text) with
  | some w =>
    have htext := List.find?_some hword
    exact .keyword (by simpa using htext) line
  | none =>
    refine .identifier (fun w htext => ?_) line
    have hnone := List.find?_eq_none.mp hword w (Keyword.mem_all w)
    exact hnone (by simpa using htext)

/-! ## Segment by segment -/

section
variable {s : Segment} {after : List Char} (line : Nat)

theorem Matches.denotes {shape : Shape} {text : List Char} (h : Matches shape text after)
    (htoken : shape.isToken) :
    ∃ t, (PlacedSegment.mk line ⟨shape, text⟩).token? = some t ∧ Denotes ⟨shape, text⟩ t := by
  cases shape with
  | layout | comment | openString | stray => cases htoken
  | mark kind => exact ⟨_, rfl, .mark kind text _⟩
  | word => exact ⟨_, rfl, denotes_word text _⟩
  | number =>
    obtain ⟨x, hx⟩ := exists_ofText?_of_matches h
    refine ⟨_, rfl, ?_⟩
    simp only [literal?, hx]
    exact .number hx _
  | string =>
    refine ⟨_, rfl, ?_⟩
    cases h with
    | @string text =>
      have hinside : Segment.inside ⟨.string, '"' :: text ++ ['"']⟩ = String.ofList text := by
        rw [inside, List.cons_append, List.tail_cons, List.dropLast_concat]
      rw [literal?, hinside]
      exact .string text _

theorem IsCandidate.denotes (h : IsCandidate s after) (htoken : s.shape.isToken) :
    ∃ t, (PlacedSegment.mk line s).token? = some t ∧ Denotes s t := by
  rcases h with h | ⟨c, rfl, -⟩
  · exact h.denotes line htoken
  · cases htoken

theorem IsCandidate.faults (h : IsCandidate s after) (hfault : s.shape.isFault) :
    ∃ e, (PlacedSegment.mk line s).error? = some e ∧ Faults s e := by
  obtain ⟨shape, text⟩ := s
  rcases h with h | ⟨c, hs, -⟩
  · cases h with
    | openString h => exact ⟨_, rfl, .openString _ line⟩
    | _ => cases hfault
  · cases hs
    exact ⟨_, rfl, .stray c line⟩

theorem token?_eq_none (htoken : s.shape.isToken = false) :
    (PlacedSegment.mk line s).token? = none := by
  obtain ⟨shape, text⟩ := s
  cases shape <;> first | rfl | cases htoken

theorem error?_eq_none_of_shape (hfault : s.shape.isFault = false) :
    (PlacedSegment.mk line s).error? = none := by
  obtain ⟨shape, text⟩ := s
  cases shape <;> first | rfl | cases hfault

/-- What the segments of a text yield belongs to them one by one. -/
theorem forall₂_place {β : Type} {R : Segment → β → Prop} {p : Segment → Bool}
    {f : PlacedSegment → Option β}
    (hsome : ∀ line s after, IsCandidate s after → p s → ∃ b, f ⟨line, s⟩ = some b ∧ R s b)
    (hnone : ∀ line s, p s = false → f ⟨line, s⟩ = none)
    {source : List Char} {ss : List Segment} (h : Munches source ss) :
    List.Forall₂ R (ss.filter p) ((place line ss).filterMap f) := by
  induction h generalizing line with
  | nil => exact .nil
  | @cons s after ss h hafter ih =>
    rw [place, List.filterMap_cons]
    by_cases hp : p s
    · obtain ⟨b, hb, hR⟩ := hsome line s after h.1 hp
      rw [hb, List.filter_cons_of_pos hp]
      exact .cons hR (ih _)
    · rw [hnone line s (by simpa using hp), List.filter_cons_of_neg hp]
      exact ih _

end

end Segment

open Segment

/-- A scan munches its text: there is one way to split the text into segments that are each the
longest at their place, and the tokens and the errors are those of the segments, in order. -/
theorem scan_munches (source : String) :
    ∃ ss, (∀ split, Munches source.toList split ↔ split = ss) ∧
      (∃ tokens last, (scan source).tokens = tokens ++ [Token.endMarker last] ∧
        List.Forall₂ Denotes (ss.filter (·.shape.isToken)) tokens) ∧
      List.Forall₂ Faults (ss.filter (·.shape.isFault)) (scan source).errors := by
  have h := munches_segments source.toList
  refine ⟨segments source.toList, fun split => munches_iff, ?_, ?_⟩
  · rw [scan_eq]
    refine ⟨_, _, rfl, ?_⟩
    exact forall₂_place 1 (fun line s after hs => hs.denotes line)
      (fun line s => token?_eq_none line) h
  · rw [scan_eq]
    exact forall₂_place 1 (fun line s after hs => hs.faults line)
      (fun line s => error?_eq_none_of_shape line) h

end Lox
