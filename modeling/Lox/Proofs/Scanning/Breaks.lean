import Lox.Proofs.Scanning.Stream

/-!
Scans across a line break. Behind the last character of a text the scanner sees a character that no
run goes on with, and a line break does the same, so a text is cut alike before either of them
(`segments_append_newline`). Only a string that is still open runs on. What comes behind the line
break is scanned as on its own, some lines further down (`scan_newline`).
-/

namespace Lox

namespace Segment

open Scanner (isLetter isWordChar plainMark? equalsMark?)

/-! ## The cut before a line break -/

section
variable (rest more : List Char)

theorem head?_append_newline {d : Char} (hd : d ≠ '\n') :
    (rest ++ '\n' :: more).head? = some d ↔ rest.head? = some d := by
  cases rest with
  | nil => simp [hd.symm]
  | cons c rest => simp

theorem leading_append_newline {p : Char → Bool} (hp : p '\n' = false) :
    leading p (rest ++ '\n' :: more) = leading p rest := by
  induction rest with
  | nil => exact leading_cons_of_neg (by simp [hp])
  | cons c rest ih =>
    rw [List.cons_append]
    by_cases hc : p c
    · rw [leading_cons_of_pos hc, leading_cons_of_pos hc, ih]
    · rw [leading_cons_of_neg hc, leading_cons_of_neg hc]

/-- A run that ends before the text does is not changed by what comes behind the text. -/
theorem leading_append_of_lt {p : Char → Bool} {rest : List Char}
    (h : leading p rest < rest.length) (more : List Char) :
    leading p (rest ++ more) = leading p rest := by
  induction rest with
  | nil => exact absurd h (Nat.not_lt_zero _)
  | cons c rest ih =>
    rw [List.cons_append]
    by_cases hc : p c
    · rw [leading_cons_of_pos hc, List.length_cons] at h
      rw [leading_cons_of_pos hc, leading_cons_of_pos hc, ih (by omega)]
    · rw [leading_cons_of_neg hc, leading_cons_of_neg hc]

/-- Neither a dot before the line break nor one at the end of the text has a fraction. -/
theorem fraction_append_newline : fraction (rest ++ '\n' :: more) = fraction rest := by
  match rest with
  | [] => exact fraction_of_ne (by decide) more
  | [c] =>
    by_cases hc : c = '.'
    · subst hc
      exact fraction_of_not_digit (by decide) more
    · exact (fraction_of_ne hc _).trans (fraction_of_ne hc _).symm
  | c :: d :: rest =>
    by_cases hc : c = '.'
    · subst hc
      by_cases hd : d.isDigit
      · have hrun := leading_append_newline rest more (show Char.isDigit '\n' = false by decide)
        show fraction ('.' :: d :: (rest ++ '\n' :: more)) = _
        rw [fraction_of_digit hd, fraction_of_digit hd, hrun]
      · exact (fraction_of_not_digit hd _).trans (fraction_of_not_digit hd _).symm
    · exact (fraction_of_ne hc _).trans (fraction_of_ne hc _).symm

theorem cut_append_newline {c : Char} (h : (cut c rest).1 ≠ .openString) :
    cut c (rest ++ '\n' :: more) = cut c rest := by
  match hplain : plainMark? c with
  | some kind => rw [cut_of_plainMark _ hplain, cut_of_plainMark _ hplain]
  | none =>
  match hequals : equalsMark? c with
  | some (alone, withEquals) =>
    rw [cut_of_equalsMark _ hequals, cut_of_equalsMark _ hequals]
    simp only [head?_append_newline rest more (show '=' ≠ '\n' by decide)]
  | none =>
  by_cases hslash : c = '/'
  · subst hslash
    rw [cut_slash, cut_slash, leading_append_newline rest more (by decide)]
    simp only [head?_append_newline rest more (show '/' ≠ '\n' by decide)]
  by_cases hlayout : isLayout c
  · rw [cut_of_isLayout _ hlayout, cut_of_isLayout _ hlayout]
  by_cases hquote : c = '"'
  · subst hquote
    -- with a quote left the string ends before the line break
    have hlt : leading (· ≠ '"') rest < rest.length := by
      refine Nat.lt_of_not_le fun hle => ?_
      rw [cut_quote, if_neg (Nat.not_lt_of_le hle)] at h
      exact h rfl
    rw [cut_quote, cut_quote, leading_append_of_lt hlt, if_pos hlt, if_pos]
    rw [List.length_append]
    omega
  by_cases hdigit : c.isDigit
  · have hrun := leading_append_newline rest more (show Char.isDigit '\n' = false by decide)
    rw [cut_of_isDigit _ hdigit, cut_of_isDigit _ hdigit, hrun,
      List.drop_append_of_le_length (leading_le _ _), fraction_append_newline]
  by_cases hletter : isLetter c
  · rw [cut_of_isLetter _ hletter, cut_of_isLetter _ hletter,
      leading_append_newline rest more (by decide)]
  · simp [cut, hplain, hequals, hslash, hlayout, hquote, hdigit, hletter]

end

theorem segments_append_newline {source : List Char}
    (h : ∀ s ∈ segments source, s.shape ≠ .openString) (more : List Char) :
    segments (source ++ '\n' :: more) =
      segments source ++ ⟨.layout, ['\n']⟩ :: segments more := by
  fun_induction segments source with
  | case1 =>
    rw [List.nil_append, List.nil_append, segments, first_eq (cut_of_isLayout more rfl), afterFirst,
      cut_of_isLayout more rfl]
    rfl
  | case2 c rest ih =>
    obtain ⟨hfirst, hafter⟩ := List.forall_mem_cons.mp h
    have hcut := cut_append_newline rest more hfirst
    have hle := cut_le c rest
    have hfirst' : first c (rest ++ '\n' :: more) = first c rest := by
      rw [first, hcut, List.take_append_of_le_length hle, first]
    have hafter' : afterFirst c (rest ++ '\n' :: more) = afterFirst c rest ++ '\n' :: more := by
      rw [afterFirst, hcut, List.drop_append_of_le_length hle, afterFirst]
    rw [List.cons_append, segments, hfirst', hafter', ih hafter, List.cons_append]

/-! ## Places further down -/

theorem place_append (line : Nat) (ss more : List Segment) :
    place line (ss ++ more) =
      place line ss ++ place (line + (ss.flatMap chars).count '\n') more := by
  induction ss generalizing line with
  | nil => simp [place]
  | cons s ss ih => simp [place, ih, lineBreaks, Nat.add_assoc]

end Segment

/-- The token so many lines further down. -/
def Token.down (lines : Nat) (t : Token) : Token :=
  { t with line := t.line + lines }

/-- The error so many lines further down. -/
def LexicalError.down (lines : Nat) (e : LexicalError) : LexicalError :=
  { e with line := e.line + lines }

namespace PlacedSegment

/-- The segment so many lines further down. -/
def down (lines : Nat) (p : PlacedSegment) : PlacedSegment :=
  { p with line := p.line + lines }

variable (lines : Nat) (p : PlacedSegment)

theorem token?_down : (p.down lines).token? = p.token?.map (Token.down lines) := by
  rw [token?, token?, Option.map_map]
  congr 1
  funext kind
  simp only [down, Token.down, Function.comp_apply, Token.mk.injEq, and_true]
  omega

theorem error?_down : (p.down lines).error? = p.error?.map (LexicalError.down lines) := by
  obtain ⟨line, shape, text⟩ := p
  cases shape with
  | stray => cases text <;> rfl
  | _ => rfl

end PlacedSegment

namespace Segment

theorem place_add (line lines : Nat) (ss : List Segment) :
    place (line + lines) ss = (place line ss).map (PlacedSegment.down lines) := by
  induction ss generalizing line with
  | nil => rfl
  | cons s ss ih =>
    rw [place, place, List.map_cons, ← ih, Nat.add_right_comm]
    rfl

section
variable (line lines : Nat) (ss : List Segment)

theorem tokens_place_add :
    (place (line + lines) ss).filterMap PlacedSegment.token? =
      ((place line ss).filterMap PlacedSegment.token?).map (Token.down lines) := by
  rw [place_add, List.filterMap_map, List.map_filterMap]
  exact congrArg (List.filterMap · _) (funext (PlacedSegment.token?_down lines))

theorem errors_place_add :
    (place (line + lines) ss).filterMap PlacedSegment.error? =
      ((place line ss).filterMap PlacedSegment.error?).map (LexicalError.down lines) := by
  rw [place_add, List.filterMap_map, List.map_filterMap]
  exact congrArg (List.filterMap · _) (funext (PlacedSegment.error?_down lines))

end

end Segment

open Segment

/-- An open string is an error of its text. -/
theorem shape_ne_openString {source : String}
    (h : ∀ e ∈ (scan source).errors, e.cause ≠ .unterminatedString) :
    ∀ s ∈ segments source.toList, s.shape ≠ .openString := by
  intro s hs hopen
  rw [← map_segment_place 1 (segments source.toList)] at hs
  obtain ⟨p, hp, rfl⟩ := List.mem_map.mp hs
  have herror : p.error? = some ⟨p.line, .unterminatedString⟩ := by
    rw [PlacedSegment.error?, hopen]
  rw [scan_eq] at h
  exact h _ (List.mem_filterMap.mpr ⟨p, hp, herror⟩) rfl

/-- A text without an open string, a line break and another text are scanned one after the other:
the tokens are those of the first text but for its end marker, then those of the second one on the
lines where it stands now, and the errors likewise. -/
theorem scan_newline {a : String}
    (h : ∀ e ∈ (scan a).errors, e.cause ≠ .unterminatedString) (b : String) :
    let lines := 1 + a.toList.count '\n'
    ∃ body last, (scan a).tokens = body ++ [Token.endMarker last] ∧
      (scan (a ++ "\n" ++ b)).tokens = body ++ (scan b).tokens.map (Token.down lines) ∧
      (scan (a ++ "\n" ++ b)).errors =
        (scan a).errors ++ (scan b).errors.map (LexicalError.down lines) := by
  intro lines
  have htext : (a ++ "\n" ++ b).toList = a.toList ++ '\n' :: b.toList := by simp
  have hsegments := segments_append_newline (shape_ne_openString h) b.toList
  -- the segments behind the line break start this many lines further down
  have hplace : place 1 (segments (a ++ "\n" ++ b).toList) =
      place 1 (segments a.toList) ++ ⟨lines, ⟨.layout, ['\n']⟩⟩ ::
        place (1 + lines) (segments b.toList) := by
    rw [htext, hsegments, place_append, flatMap_chars_segments, place]
    rw [show Segment.lineBreaks ⟨.layout, ['\n']⟩ = 1 from rfl, Nat.add_comm lines 1]
  have hcount : (a ++ "\n" ++ b).toList.count '\n' = b.toList.count '\n' + lines := by
    rw [htext, List.count_append, List.count_cons_self]
    omega
  have htoken : (PlacedSegment.mk lines ⟨.layout, ['\n']⟩).token? = none := rfl
  have herror : (PlacedSegment.mk lines ⟨.layout, ['\n']⟩).error? = none := rfl
  simp only [scan_eq]
  refine ⟨_, _, rfl, ?_, ?_⟩
  · rw [hplace, List.filterMap_append, List.filterMap_cons_none htoken, tokens_place_add, hcount,
      ← Nat.add_assoc, List.append_assoc, List.map_append]
    rfl
  · rw [hplace, List.filterMap_append, List.filterMap_cons_none herror, errors_place_add]

/-- A string across two lines, a comment with a quote, and at the end of the first text a number
with a dot and half of a mark, of which the second text has the other half. -/
theorem scan_newline_half_mark :
    let a := "\"p\nq\" // \"\n1. !"
    let b := "= 2\n\"open"
    (∀ e ∈ (scan a).errors, e.cause ≠ .unterminatedString) ∧
      (scan (a ++ "\n" ++ b)).tokens.map (fun t => (t.line, t.kind)) =
        [(2, .string), (3, .number), (3, .dot), (3, .bang), (4, .equal), (4, .number),
          (5, .endOfInput)] ∧
      (scan (a ++ "\n" ++ b)).errors = [⟨5, .unterminatedString⟩] := by
  intro a b
  have h : ∀ e ∈ (scan a).errors, e.cause ≠ .unterminatedString := by decide +kernel
  obtain ⟨body, last, hbody, htokens, herrors⟩ := scan_newline h b
  have hlast : body = (scan a).tokens.dropLast := by rw [hbody, List.dropLast_concat]
  refine ⟨h, ?_, ?_⟩
  · rw [htokens, hlast]
    decide +kernel
  · rw [herrors]
    decide +kernel

end Lox
