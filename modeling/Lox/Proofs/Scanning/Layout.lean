import Lox.Proofs.Expr.Lines
import Lox.Proofs.Scanning.Stream
import Lox.Proofs.Scanning.Tokens

/-!
Layout between lexemes. A token that is followed by a blank, or by nothing, is a segment of its own
in whatever text it stands, and layout is cut into segments that mean nothing. So a text that spells
the lexemes of another one with layout between them has the same segments but for that layout
(`solid_eq_of_spaced`), and the same tokens on other lines (`map_unplaced_tokens`).
-/

namespace Lox

/-- The shapes that make neither a token nor an error. -/
def Shape.isBlank : Shape → Bool
  | layout | comment => true
  | mark _ | number | word | string | openString | stray => false

namespace Segment

open Scanner (isLetter isWordChar plainMark? equalsMark?)

/-- Blanks, line breaks, and comments up to the end of their lines. -/
inductive Layout : List Char → Prop
  | nil : Layout []
  | blank {c : Char} {rest : List Char} (hc : isLayout c) (h : Layout rest) : Layout (c :: rest)
  | comment {text rest : List Char} (ht : '\n' ∉ text) (h : Layout rest) :
    Layout ('/' :: '/' :: text ++ '\n' :: rest)

/-- What follows begins with a blank or a line break, if anything follows. -/
def EndsLexeme (rest : List Char) : Prop :=
  ∀ c ∈ rest.head?, isLayout c

/-- The lexemes in a row, with layout between them that ends the lexeme before it. Behind the last
one there may be none. -/
inductive Spaced : List (List Char) → List Char → Prop
  | nil : Spaced [] []
  | last (lexeme : List Char) {gap : List Char} (hgap : Layout gap) (hend : EndsLexeme gap) :
    Spaced [lexeme] (lexeme ++ gap)
  | cons (lexeme : List Char) {next gap rest : List Char} {lexemes : List (List Char)}
      (hgap : Layout gap) (hend : EndsLexeme gap) (hne : gap ≠ [])
      (hrest : Spaced (next :: lexemes) rest) :
      Spaced (lexeme :: next :: lexemes) (lexeme ++ (gap ++ rest))

/-! ## A lexeme that is followed by a blank -/

section
variable {rest : List Char} (h : EndsLexeme rest)
include h

theorem EndsLexeme.leading_eq_zero {p : Char → Bool} (hp : ∀ c, isLayout c → p c = false) :
    leading p rest = 0 := by
  cases rest with
  | nil => rfl
  | cons c rest => exact leading_cons_of_neg (by simp [hp c (h c rfl)])

theorem EndsLexeme.head?_ne {c : Char} (hc : isLayout c = false) : rest.head? ≠ some c := by
  intro hhead
  rw [h c hhead] at hc
  cases hc

theorem EndsLexeme.fraction_eq_zero : fraction rest = 0 := by
  cases rest with
  | nil => rfl
  | cons c rest =>
    refine fraction_of_ne ?_ rest
    rintro rfl
    exact absurd (h '.' rfl) (by decide)

end

theorem isWordChar_of_isLayout (c : Char) (hc : isLayout c) : isWordChar c = false := by
  rcases isLayout_iff.mp hc with rfl | rfl | rfl | rfl <;> rfl

theorem isDigit_of_isLayout (c : Char) (hc : isLayout c) : c.isDigit = false := by
  rcases isLayout_iff.mp hc with rfl | rfl | rfl | rfl <;> rfl

section
variable {c : Char} {text rest after more : List Char} {shape : Shape}

/-- The forms of tokens do not look at what stands behind them. -/
theorem Matches.of_isToken (h : Matches shape text after) (hshape : shape.isToken) :
    Matches shape text more := by
  cases h with
  | layout | comment | openString => cases hshape
  | mark h => exact .mark h more
  | whole hne h => exact .whole hne h more
  | decimal hne h hne' h' => exact .decimal hne h hne' h' more
  | word hc h => exact .word hc h more
  | string h => exact .string h more

theorem cut_mark_le {kind : TokenKind} (h : (text, kind) ∈ marks) (hend : EndsLexeme more)
    (hsplit : text ++ more = c :: rest) : (cut c rest).2 + 1 ≤ text.length := by
  rcases of_mem_marks h with ⟨c, rfl, hc⟩ | ⟨c, withEquals, rfl, hc⟩ | ⟨c, alone, rfl, hc⟩ |
    ⟨rfl, rfl⟩
  · obtain ⟨rfl, rfl⟩ : c = _ ∧ more = rest := List.cons.inj hsplit
    rw [cut_of_plainMark more hc]
    exact Nat.le_refl 1
  · obtain ⟨rfl, rfl⟩ : c = _ ∧ more = rest := List.cons.inj hsplit
    rw [cut_of_equalsMark more hc, if_neg (hend.head?_ne rfl)]
    exact Nat.le_refl 1
  · obtain ⟨rfl, rfl⟩ : c = _ ∧ '=' :: more = rest := List.cons.inj hsplit
    rw [cut_of_equalsMark _ hc]
    exact Nat.le_refl 2
  · obtain ⟨rfl, rfl⟩ : '/' = c ∧ more = rest := List.cons.inj hsplit
    rw [cut_slash, if_neg (hend.head?_ne rfl)]
    exact Nat.le_refl 1

/-- Before a blank no longer segment starts where a token does. -/
theorem Matches.cut_le (h : Matches shape text after) (hshape : shape.isToken)
    (hend : EndsLexeme more) (hsplit : text ++ more = c :: rest) :
    (cut c rest).2 + 1 ≤ text.length := by
  cases h with
  | layout | comment | openString => cases hshape
  | mark h => exact cut_mark_le h hend hsplit
  | whole hne h =>
    obtain ⟨-, hlength⟩ := cut_digits hne h hsplit
    rw [hend.leading_eq_zero isDigit_of_isLayout, List.drop_zero, hend.fraction_eq_zero] at hlength
    exact Nat.le_of_eq hlength
  | @decimal digits fractional hne h hne' h' =>
    rw [List.append_assoc] at hsplit
    obtain ⟨-, hlength⟩ := cut_digits hne h hsplit
    obtain ⟨d, fractional, rfl⟩ := List.exists_cons_of_ne_nil hne'
    have hrun : leading Char.isDigit (fractional ++ more) = fractional.length + _ :=
      leading_append (fun x hx => h' x (List.mem_cons_of_mem _ hx)) more
    have hdot : leading Char.isDigit ('.' :: d :: fractional ++ more) = 0 :=
      leading_cons_of_neg (by decide)
    have hfraction := fraction_of_digit (h' d List.mem_cons_self) (fractional ++ more)
    rw [hrun, hend.leading_eq_zero isDigit_of_isLayout] at hfraction
    rw [hdot, List.drop_zero] at hlength
    simp only [List.cons_append, hfraction] at hlength
    simp only [List.length_append, List.length_cons]
    omega
  | @word b letters hc h =>
    obtain ⟨rfl, rfl⟩ : b = c ∧ letters ++ more = rest := List.cons.inj hsplit
    rw [cut_of_isLetter _ hc, leading_append h, hend.leading_eq_zero isWordChar_of_isLayout]
    exact Nat.le_refl _
  | @string inside h =>
    rw [List.append_assoc] at hsplit
    obtain ⟨rfl, rfl⟩ : '"' = c ∧ inside ++ (['"'] ++ more) = rest := List.cons.inj hsplit
    have hrun := leading_append (forall_ne_of_not_mem h) (['"'] ++ more)
    have hquote : leading (· ≠ '"') (['"'] ++ more) = 0 := leading_cons_of_neg (by decide)
    rw [hquote] at hrun
    rw [cut_quote, hrun, if_pos (by simp)]
    simp

end

theorem segments_append {s : Segment} {after more : List Char} (h : Matches s.shape s.chars after)
    (hshape : s.shape.isToken) (hend : EndsLexeme more) :
    segments (s.chars ++ more) = s :: segments more := by
  obtain ⟨c, rest, hsplit⟩ : ∃ c rest, s.chars ++ more = c :: rest :=
    List.exists_cons_of_ne_nil (List.append_ne_nil_of_left_ne_nil h.ne_nil _)
  have hfirst : s = first c rest := by
    rcases (h.of_isToken hshape).lt_or_eq_first hsplit with hlt | heq
    · rw [length_chars_first] at hlt
      exact absurd (h.cut_le hshape hend hsplit) (Nat.not_le_of_lt hlt)
    · exact heq
  have hafter : more = afterFirst c rest := by
    rw [← chars_first_append c rest, ← hfirst] at hsplit
    exact List.append_cancel_left hsplit
  rw [hsplit, segments, ← hfirst, ← hafter]

/-! ## Layout disappears -/

/-- The segments of a text that mean something. -/
def solid (source : List Char) : List Segment :=
  (segments source).filter (!·.shape.isBlank)

theorem solid_nil : solid [] = [] := by
  rw [solid, segments]
  rfl

theorem segments_blank_cons {c : Char} (hc : isLayout c) (rest : List Char) :
    segments (c :: rest) = ⟨.layout, [c]⟩ :: segments rest := by
  have hcut := cut_of_isLayout rest hc
  rw [segments, first_eq hcut, afterFirst, hcut]
  rfl

theorem segments_comment {text : List Char} (ht : '\n' ∉ text) (rest : List Char) :
    segments ('/' :: '/' :: text ++ '\n' :: rest) =
      ⟨.comment, '/' :: '/' :: text⟩ :: segments ('\n' :: rest) := by
  have hrun := leading_append (forall_ne_of_not_mem (show '\n' ∉ '/' :: text by simp [ht]))
    ('\n' :: rest)
  have hnewline : leading (· ≠ '\n') ('\n' :: rest) = 0 := leading_cons_of_neg (by decide)
  rw [hnewline] at hrun
  have hcut := cut_slash ('/' :: text ++ '\n' :: rest)
  rw [if_pos (by simp), hrun] at hcut
  rw [List.cons_append, segments, first_eq hcut, afterFirst, hcut, Nat.add_zero, List.take_left,
    List.drop_left]

theorem solid_layout_append {gap : List Char} (h : Layout gap) (rest : List Char) :
    solid (gap ++ rest) = solid rest := by
  induction h with
  | nil => rfl
  | blank hc h ih =>
    rw [solid, List.cons_append, segments_blank_cons hc]
    exact ih
  | @comment text more ht h ih =>
    rw [List.append_assoc, solid, show '\n' :: more ++ rest = '\n' :: (more ++ rest) from rfl,
      segments_comment ht, segments_blank_cons rfl]
    exact ih

theorem solid_append {s : Segment} {after more : List Char} (h : Matches s.shape s.chars after)
    (hshape : s.shape.isToken) (hend : EndsLexeme more) :
    solid (s.chars ++ more) = s :: solid more := by
  have hsolid : (!s.shape.isBlank) = true := by
    cases hs : s.shape <;> first | rfl | (rw [hs] at hshape; cases hshape)
  rw [solid, segments_append h hshape hend]
  exact List.filter_cons_of_pos hsolid

/-- The induction takes one lexeme and the layout behind it at a time. -/
theorem Spaced.solid_eq {ss : List Segment} {text : List Char}
    (hss : ∀ s ∈ ss, s.shape.isToken ∧ ∃ after, Matches s.shape s.chars after)
    (h : Spaced (ss.map chars) text) : solid text = ss := by
  induction ss generalizing text with
  | nil =>
    cases h
    exact solid_nil
  | cons s ss ih =>
    obtain ⟨⟨hshape, after, hs⟩, hss⟩ := List.forall_mem_cons.mp hss
    cases ss with
    | nil =>
      cases h with
      | @last _ gap hgap hend =>
        rw [solid_append hs hshape hend, ← List.append_nil gap, solid_layout_append hgap, solid_nil]
    | cons next ss =>
      cases h with
      | @cons _ _ gap rest _ hgap hend hne hrest =>
        have hends : EndsLexeme (gap ++ rest) := by
          intro c hc
          rw [List.head?_append_of_ne_nil _ hne] at hc
          exact hend c hc
        rw [solid_append hs hshape hends, solid_layout_append hgap, ih hss hrest]

/-! ## The tokens of the segments that mean something -/

/-- The token that a segment is, on no line in particular. -/
def bareToken? (s : Segment) : Option Token :=
  s.kind?.map fun kind => ⟨0, kind, s.text, s.literal?⟩

theorem unplaced_token? (p : PlacedSegment) :
    p.token?.map Token.unplaced = p.segment.bareToken? := by
  rw [PlacedSegment.token?, Option.map_map]
  rfl

theorem bareToken?_of_isBlank {s : Segment} (h : s.shape.isBlank) : s.bareToken? = none := by
  obtain ⟨shape, text⟩ := s
  cases shape <;> first | rfl | cases h

theorem bareToken?_of_isToken {s : Segment} (h : s.shape.isToken) :
    ∃ t, s.bareToken? = some t ∧ t.lexeme.toList = s.chars := by
  obtain ⟨shape, text⟩ := s
  cases shape with
  | layout | comment | openString | stray => cases h
  | mark | number | word | string => exact ⟨_, rfl, String.toList_ofList⟩

theorem map_unplaced_place (line : Nat) (ss : List Segment) :
    ((place line ss).filterMap PlacedSegment.token?).map Token.unplaced =
      ss.filterMap bareToken? := by
  rw [List.map_filterMap, funext unplaced_token?]
  conv => rhs; rw [← map_segment_place line ss, List.filterMap_map]
  rfl

theorem filterMap_solid (source : List Char) :
    (solid source).filterMap bareToken? = (segments source).filterMap bareToken? := by
  rw [solid, List.filterMap_filter]
  refine List.filterMap_congr fun s _ => ?_
  by_cases h : s.shape.isBlank
  · simp [h, bareToken?_of_isBlank h]
  · simp [h]

theorem map_lexeme_filterMap {ss : List Segment} (h : ∀ s ∈ ss, s.shape.isToken) :
    (ss.filterMap bareToken?).map (·.lexeme.toList) = ss.map chars := by
  induction ss with
  | nil => rfl
  | cons s ss ih =>
    obtain ⟨hs, hss⟩ := List.forall_mem_cons.mp h
    obtain ⟨t, ht, hlexeme⟩ := bareToken?_of_isToken hs
    rw [List.filterMap_cons_some ht, List.map_cons, List.map_cons, ih hss, hlexeme]

theorem isFault_eq_false_iff (shape : Shape) :
    shape.isFault = false ↔ (shape.isBlank = false → shape.isToken) := by
  cases shape <;> simp [Shape.isFault, Shape.isBlank, Shape.isToken]

theorem exists_matches_of_mem_solid {source : List Char} {s : Segment} (hs : s ∈ solid source)
    (h : s.shape.isToken) : ∃ after, Matches s.shape s.chars after := by
  obtain ⟨after, hmatches | ⟨c, rfl, -⟩⟩ :=
    (munches_segments source).exists_isCandidate s (List.mem_of_mem_filter hs)
  · exact ⟨after, hmatches⟩
  · cases h

end Segment

open Segment

section
variable (source : String)

theorem map_unplaced_tokens :
    (scan source).tokens.map Token.unplaced =
      (solid source.toList).filterMap bareToken? ++ [Token.endMarker 0] := by
  rw [scan_eq, List.map_append, map_unplaced_place, filterMap_solid]
  rfl

theorem scan_errors_eq_nil_iff :
    (scan source).errors = [] ↔ ∀ s ∈ solid source.toList, s.shape.isToken := by
  have hfaults : List.Forall₂ Faults ((segments source.toList).filter (·.shape.isFault))
      (scan source).errors := by
    rw [scan_eq]
    exact forall₂_place 1 (fun line s after hs => hs.faults line)
      (fun line s => error?_eq_none_of_shape line) (munches_segments _)
  rw [← List.length_eq_zero_iff, ← hfaults.length_eq, List.length_eq_zero_iff,
    List.filter_eq_nil_iff]
  simp [solid, isFault_eq_false_iff]

end

/-- A text of the same lexemes with other layout between them has the same segments, but for the
layout. -/
theorem solid_eq_of_spaced {source : String} {lead tail : List Char}
    (herrors : (scan source).errors = []) (hlead : Layout lead)
    (htail : Spaced ((scan source).tokens.dropLast.map (·.lexeme.toList)) tail) :
    solid (lead ++ tail) = solid source.toList := by
  have htokens := (scan_errors_eq_nil_iff source).mp herrors
  have hlexemes : (scan source).tokens.dropLast.map (·.lexeme.toList) =
      (solid source.toList).map chars := by
    have hlast : ((scan source).tokens.map Token.unplaced).dropLast =
        (solid source.toList).filterMap bareToken? := by
      rw [map_unplaced_tokens, List.dropLast_concat]
    rw [← map_lexeme_filterMap htokens, ← hlast, ← List.map_dropLast, List.map_map]
    rfl
  rw [hlexemes] at htail
  rw [solid_layout_append hlead]
  exact htail.solid_eq fun s hs => ⟨htokens s hs, exists_matches_of_mem_solid hs (htokens s hs)⟩

end Lox
