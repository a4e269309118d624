import Lox.Proofs.Scanning.Segment

/-!
The scanner takes a text segment by segment. Each of its loops passes as many characters as satisfy
its condition at the front of what is ahead, each step takes the first segment there, and so a scan
finds the tokens and the errors among the segments of the text (`scan_eq`).
-/

namespace Lox

open Segment

namespace Scanner

section
variable (chars : Array Char)

/-- The characters that have not been passed. -/
def rest (s : Scanner) : List Char :=
  chars.toList.drop s.current

end

/-- Puts the start of a lexeme at the character ahead. -/
def begin (s : Scanner) : Scanner :=
  { s with start := s.current }

/-- Passes the characters of `text`. -/
def passing (text : List Char) (s : Scanner) : Scanner :=
  { s with line := s.line + text.count '\n', current := s.current + text.length }

variable {chars : Array Char} {s : Scanner} {c : Char} {r : List Char}

/-! ## Looking ahead -/

theorem rest_eq_nil_iff : rest chars s = [] ↔ chars.size ≤ s.current := by
  simp [rest]

theorem lt_size_of_rest (h : rest chars s = c :: r) : s.current < chars.size := by
  refine Nat.lt_of_not_le fun hle => ?_
  rw [rest_eq_nil_iff.mpr hle] at h
  cases h

theorem getElem?_current (s : Scanner) : chars[s.current]? = (rest chars s).head? := by
  simp [rest, List.head?_drop]

theorem getElem?_succ_current (s : Scanner) : chars[s.current + 1]? = (rest chars s)[1]? := by
  simp [rest, List.getElem?_drop]

theorem seen_of_rest (h : rest chars s = c :: r) : seen chars s = c := by
  rw [seen, Array.getD_eq_getD_getElem?, getElem?_current, h]
  rfl

/-- Behind the last character stands the null character. -/
theorem seen_of_rest_nil (h : rest chars s = []) : seen chars s = '\x00' := by
  rw [seen, Array.getD_eq_getD_getElem?, getElem?_current, h]
  rfl

/-! ## Passing characters -/

@[simp] theorem rest_passing (text : List Char) (s : Scanner) :
    rest chars (s.passing text) = (rest chars s).drop text.length := by
  simp [rest, passing, List.drop_drop]

@[simp] theorem rest_begin (s : Scanner) : rest chars (begin s) = rest chars s := rfl

@[simp] theorem passing_nil (s : Scanner) : s.passing [] = s := rfl

theorem passing_passing (text more : List Char) (s : Scanner) :
    (s.passing text).passing more = s.passing (text ++ more) := by
  simp [passing, List.count_append, Nat.add_assoc]

theorem passing_singleton (hc : c ≠ '\n') : s.passing [c] = s.advance := by
  simp [passing, advance, hc]

theorem advance_passing {d : Char} (hd : d ≠ '\n') (text : List Char) (s : Scanner) :
    (s.passing text).advance = s.passing (text ++ [d]) := by
  rw [← passing_singleton hd, passing_passing]

theorem passing_newline : s.passing ['\n'] = { s.advance with line := s.line + 1 } := rfl

/-! ## Loops -/

/-- A loop that passes characters one by one as long as they satisfy `p`. The induction is on what
is ahead. -/
theorem loop_eq {p : Char → Bool} {f : Scanner → Scanner}
    (hstep : ∀ s c r, rest chars s = c :: r → p c → f s = f (s.passing [c]))
    (hstop : ∀ s, (∀ c ∈ (rest chars s).head?, ¬p c) → f s = s) (s : Scanner) :
    f s = s.passing ((rest chars s).takeWhile p) := by
  induction hr : rest chars s generalizing s with
  | nil =>
    rw [hstop s (by simp [hr])]
    rfl
  | cons c r ih =>
    by_cases hc : p c
    · have hrest : rest chars (s.passing [c]) = r := by
        rw [rest_passing, hr]
        rfl
      rw [hstep s c r hr hc, ih _ hrest, List.takeWhile_cons_of_pos hc]
      exact passing_passing [c] _ s
    · rw [hstop s (by simp [hr, hc]), List.takeWhile_cons_of_neg hc]
      rfl

theorem passWhile_eq {p : Char → Bool} (hp : p '\x00' = false) (hn : p '\n' = false)
    (s : Scanner) : passWhile chars p hp s = s.passing ((rest chars s).takeWhile p) := by
  refine loop_eq (f := passWhile chars p hp) (fun s c r hr hc => ?_) (fun s hs => ?_) s
  · have hc' : c ≠ '\n' := by
      rintro rfl
      simp [hn] at hc
    rw [passWhile, seen_of_rest hr, if_pos hc, passing_singleton hc']
  · rw [passWhile, if_neg]
    cases hr : rest chars s with
    | nil => simp [seen_of_rest_nil hr, hp]
    | cons c r =>
      rw [seen_of_rest hr]
      exact hs c (by simp [hr])

/-- Where a loop that runs to the end of the text or to the character `stop` goes on. -/
theorem more_iff (stop : Char) (s : Scanner) :
    (s.current < chars.size ∧ seen chars s ≠ stop) ↔ ∃ c ∈ (rest chars s).head?, c ≠ stop := by
  cases hr : rest chars s with
  | nil =>
    have hend := rest_eq_nil_iff.mp hr
    simp
    omega
  | cons c r =>
    have hlt := lt_size_of_rest hr
    simp [hlt, seen_of_rest hr]

theorem passComment_eq (s : Scanner) :
    passComment chars s = s.passing ((rest chars s).takeWhile (· ≠ '\n')) := by
  refine loop_eq (f := passComment chars) (fun s c r hr hc => ?_) (fun s hs => ?_) s
  · have hc : c ≠ '\n' := by simpa using hc
    rw [passComment, if_pos ((more_iff '\n' s).mpr ⟨c, by simp [hr], hc⟩), passing_singleton hc]
  · rw [passComment, if_neg]
    rw [more_iff]
    rintro ⟨c, hr, hc⟩
    exact hs c hr (by simpa using hc)

theorem passString_eq (s : Scanner) :
    passString chars s = s.passing ((rest chars s).takeWhile (· ≠ '"')) := by
  refine loop_eq (f := passString chars) (fun s c r hr hc => ?_) (fun s hs => ?_) s
  · have hc : c ≠ '"' := by simpa using hc
    have hpassing : s.passing [c] =
        { s.advance with line := if seen chars s = '\n' then s.line + 1 else s.line } := by
      rw [seen_of_rest hr]
      split
      · next hn => rw [hn, passing_newline]
      · next hn => rw [passing_singleton hn]; rfl
    rw [passString, if_pos ((more_iff '"' s).mpr ⟨c, by simp [hr], hc⟩), hpassing]
  · rw [passString, if_neg]
    rw [more_iff]
    rintro ⟨c, hr, hc⟩
    exact hs c hr (by simpa using hc)

theorem passDigits_eq (s : Scanner) :
    passDigits chars s = s.passing ((rest chars s).takeWhile Char.isDigit) :=
  passWhile_eq (by decide) (by decide) s

theorem seenNext_of_rest {d : Char} (h : rest chars s = c :: d :: r) : seenNext chars s = d := by
  rw [seenNext, Array.getD_eq_getD_getElem?, getElem?_succ_current, h]
  rfl

theorem seenNext_of_rest_singleton (h : rest chars s = [c]) : seenNext chars s = '\x00' := by
  rw [seenNext, Array.getD_eq_getD_getElem?, getElem?_succ_current, h]
  rfl

theorem passFraction_eq (s : Scanner) :
    (if seen chars s = '.' ∧ (seenNext chars s).isDigit then passDigits chars s.advance else s) =
      s.passing ((rest chars s).take (fraction (rest chars s))) := by
  match hr : rest chars s with
  | [] =>
    rw [seen_of_rest_nil hr]
    rfl
  | [c] =>
    -- behind a dot at the end of the text the null character is seen, which is no digit
    rw [seenNext_of_rest_singleton hr]
    by_cases hc : c = '.'
    · rw [hc]
      simp [fraction]
    · simp [fraction_of_ne hc]
  | c :: d :: r =>
    rw [seen_of_rest hr, seenNext_of_rest hr]
    by_cases hc : c = '.'
    · subst hc
      by_cases hd : d.isDigit
      · have hdot : s.passing ['.'] = s.advance := passing_singleton (by decide)
        have htake : ('.' :: d :: r).take (2 + leading Char.isDigit r) =
            ['.'] ++ (d :: r).takeWhile Char.isDigit := by
          rw [Nat.add_comm, List.takeWhile_cons_of_pos hd, ← take_leading]
          rfl
        rw [if_pos ⟨rfl, hd⟩, passDigits_eq, ← hdot, rest_passing, hr, fraction_of_digit hd, htake]
        exact passing_passing _ _ s
      · simp [hd, fraction_of_not_digit]
    · simp [hc, fraction_of_ne]

/-! ## Taking a segment -/

/-- Passes a segment and gathers what it yields. -/
def take (s : Scanner) (segment : Segment) : Scanner :=
  let placed : PlacedSegment := ⟨s.line, segment⟩
  { begin s |>.passing segment.chars with
    tokens := s.tokens ++ placed.token?.toArray
    errors := s.errors ++ placed.error?.toArray }

variable {segment : Segment}

theorem lexeme_passing {text : List Char} (h : text <+: rest chars s) :
    lexeme chars ((begin s).passing text) = text := by
  have htake := List.prefix_iff_eq_take.mp h
  rw [rest] at htake
  simp only [lexeme, begin, passing, Array.toList_extract, List.extract_eq_take_drop,
    Nat.add_sub_cancel_left]
  exact htake.symm

theorem emit_eq_take {kind : TokenKind} {literal : Option Literal}
    (h : segment.chars <+: rest chars s) (hkind : segment.kind? = some kind)
    (hliteral : segment.literal? = literal) :
    emit chars kind literal ((begin s).passing segment.chars) = s.take segment := by
  have herror := PlacedSegment.error?_eq_none s.line hkind
  simp only [take, emit, lexeme_passing h, herror, PlacedSegment.token?, hkind, hliteral]
  simp [passing, begin, Segment.text, Segment.lineBreaks]

theorem report_eq_take {cause : LexicalError.Cause} (hkind : segment.kind? = none)
    (herror : (PlacedSegment.mk s.line segment).error? = some ⟨s.line, cause⟩) :
    report s.line cause ((begin s).passing segment.chars) = s.take segment := by
  simp only [take, report, herror, PlacedSegment.token?, hkind]
  simp [passing, begin]

theorem passing_eq_take (hkind : segment.kind? = none)
    (herror : (PlacedSegment.mk s.line segment).error? = none) :
    (begin s).passing segment.chars = s.take segment := by
  simp only [take, herror, PlacedSegment.token?, hkind]
  simp [passing, begin]

/-! ## One step -/

section
variable (h : rest chars s = c :: r)
include h

theorem cons_take_of_rest (n : Nat) : c :: r.take n <+: rest chars s := by
  rw [h, List.cons_prefix_cons]
  exact ⟨rfl, List.take_prefix n r⟩

theorem chars_first_of_rest : (first c r).chars <+: rest chars s :=
  ⟨afterFirst c r, by rw [Segment.chars_first_append, h]⟩

theorem rest_take_first : rest chars (s.take (first c r)) = afterFirst c r := by
  have hrest : rest chars (s.take (first c r)) = (rest chars s).drop (first c r).chars.length :=
    rest_passing _ s
  rw [hrest, h, ← Segment.chars_first_append, List.drop_left]

theorem emit_first {kind : TokenKind} {literal : Option Literal} {n : Nat} {shape : Shape}
    (hcut : cut c r = (shape, n)) (hkind : (Segment.mk shape (c :: r.take n)).kind? = some kind)
    (hliteral : (Segment.mk shape (c :: r.take n)).literal? = literal) :
    emit chars kind literal ((begin s).passing (c :: r.take n)) = s.take (first c r) := by
  have hprefix := chars_first_of_rest h
  rw [first_eq hcut] at hprefix ⊢
  exact emit_eq_take hprefix hkind hliteral

end

theorem isFollowedBy_passing (h : rest chars s = c :: r) (expected : Char) :
    isFollowedBy chars expected ((begin s).passing [c]) = decide (r.head? = some expected) := by
  rw [isFollowedBy, getElem?_current, rest_passing, rest_begin, h]
  rfl

theorem isAtEnd_eq (s : Scanner) : isAtEnd chars s = (rest chars s).isEmpty := by
  rw [isAtEnd, Bool.eq_iff_iff, List.isEmpty_iff, rest_eq_nil_iff, decide_eq_true_iff]

/-- What has been passed behind the first character of a lexeme. -/
theorem begin_passing_cons (c : Char) (text : List Char) (s : Scanner) :
    ((begin s).passing [c]).passing text = (begin s).passing (c :: text) :=
  passing_passing [c] text s.begin

theorem rest_begin_passing (h : rest chars s = c :: r) :
    rest chars ((begin s).passing [c]) = r := by
  rw [rest_passing, rest_begin, h]
  rfl

/-- The characters between the first and the last one passed. -/
theorem extract_inside (h : rest chars s = c :: r) {n : Nat} (hn : n < r.length) :
    (chars.extract (s.current + 1) (((begin s).passing (c :: r.take (n + 1))).current - 1)).toList =
      r.take n := by
  have hcurrent : ((begin s).passing (c :: r.take (n + 1))).current = s.current + (n + 2) := by
    simp only [passing, begin, List.length_cons, List.length_take, Nat.min_eq_left hn]
  have hrest : chars.toList.drop (s.current + 1) = r := by
    rw [← List.drop_drop, ← rest, h]
    rfl
  rw [hcurrent, Array.toList_extract, List.extract_eq_take_drop, hrest]
  congr 1
  omega

/-- What a string does once it has passed the characters before the next quote. -/
theorem passString_of_quote (h : rest chars s = '"' :: r) :
    passString chars ((begin s).passing ['"']) =
      (begin s).passing ('"' :: r.take (leading (· ≠ '"') r)) := by
  rw [passString_eq, rest_begin_passing h, begin_passing_cons, take_leading]

theorem string_eq_of_closed (h : rest chars s = '"' :: r)
    (hlt : leading (· ≠ '"') r < r.length) :
    string chars ((begin s).passing ['"']) = s.take (first '"' r) := by
  obtain ⟨d, more, hd, hdrop⟩ := drop_leading_of_lt hlt
  have hquote : d = '"' := by simpa using hd
  have htake : r.take (leading (· ≠ '"') r + 1) = r.take (leading (· ≠ '"') r) ++ ['"'] := by
    rw [List.take_add, hdrop, hquote]
    rfl
  have hend :
      isAtEnd chars ((begin s).passing ('"' :: r.take (leading (· ≠ '"') r))) = false := by
    rw [isAtEnd_eq, rest_passing, rest_begin, h, take_leading]
    exact congrArg List.isEmpty hdrop
  have hclosed : ((begin s).passing ('"' :: r.take (leading (· ≠ '"') r))).advance =
      (begin s).passing ('"' :: r.take (leading (· ≠ '"') r + 1)) := by
    rw [advance_passing (d := '"') (by decide), htake]
    rfl
  have hstart : ((begin s).passing ('"' :: r.take (leading (· ≠ '"') r + 1))).start = s.current :=
    rfl
  have hcut : cut '"' r = (.string, leading (· ≠ '"') r + 1) := by rw [cut_quote, if_pos hlt]
  simp only [string, passString_of_quote h, hend, hclosed, hstart, extract_inside h hlt]
  refine emit_first h hcut rfl ?_
  rw [Segment.literal?, Segment.inside, List.tail_cons, htake, List.dropLast_concat]

theorem string_eq_of_open (h : rest chars s = '"' :: r)
    (hlt : ¬leading (· ≠ '"') r < r.length) :
    string chars ((begin s).passing ['"']) = s.take (first '"' r) := by
  have hall : r.take (leading (· ≠ '"') r) = r := by
    rw [take_leading, takeWhile_eq_self_of_not_lt hlt]
  have hfirst : first '"' r = ⟨.openString, '"' :: r⟩ := by
    rw [first_eq (by rw [cut_quote, if_neg hlt]), hall]
  have hend : isAtEnd chars ((begin s).passing ('"' :: r)) = true := by
    rw [isAtEnd_eq, rest_passing, rest_begin, h, List.drop_length]
    rfl
  -- the error is reported on the line of the opening quote
  have hline : ((begin s).passing ['"']).line = s.line := rfl
  simp only [string, passString_of_quote h, hall, hend, hfirst, hline, if_true]
  exact @report_eq_take s ⟨.openString, '"' :: r⟩ _ rfl rfl

theorem number_eq (h : rest chars s = c :: r) (hc : c.isDigit) :
    number chars ((begin s).passing [c]) = s.take (first c r) := by
  have hwhole : passDigits chars ((begin s).passing [c]) =
      (begin s).passing (c :: r.takeWhile Char.isDigit) := by
    rw [passDigits_eq, rest_begin_passing h, begin_passing_cons]
  have hrest : rest chars ((begin s).passing (c :: r.takeWhile Char.isDigit)) =
      r.drop (leading Char.isDigit r) := by
    rw [rest_passing, rest_begin, h]
    rfl
  have hpassed : ((begin s).passing (c :: r.takeWhile Char.isDigit)).passing
        ((r.drop (leading Char.isDigit r)).take (fraction (r.drop (leading Char.isDigit r)))) =
      (begin s).passing (c :: r.take (leading Char.isDigit r +
        fraction (r.drop (leading Char.isDigit r)))) := by
    rw [passing_passing, List.take_add, ← take_leading]
    rfl
  simp only [number, hwhole, passFraction_eq, hrest, hpassed]
  rw [lexeme_passing (cons_take_of_rest h _)]
  exact emit_first h (cut_of_isDigit r hc) rfl rfl

theorem word_eq (h : rest chars s = c :: r) (hc : isLetter c) :
    word chars ((begin s).passing [c]) = s.take (first c r) := by
  have hpassed : passWhile chars isWordChar (by decide) ((begin s).passing [c]) =
      (begin s).passing (c :: r.take (leading isWordChar r)) := by
    rw [passWhile_eq (by decide) (by decide), rest_begin_passing h, begin_passing_cons,
      take_leading]
  rw [word, hpassed, lexeme_passing (cons_take_of_rest h _)]
  exact emit_first h (cut_of_isLetter r hc) rfl rfl

theorem comment_eq (h : rest chars s = '/' :: '/' :: r) :
    passComment chars ((begin s).passing ['/']).advance = s.take (first '/' ('/' :: r)) := by
  have htake : ('/' :: r).takeWhile (· ≠ '\n') = '/' :: r.takeWhile (· ≠ '\n') :=
    List.takeWhile_cons_of_pos (by decide)
  have hfirst : first '/' ('/' :: r) = ⟨.comment, '/' :: '/' :: r.takeWhile (· ≠ '\n')⟩ := by
    have hcut := cut_slash ('/' :: r)
    rw [List.head?_cons, if_pos rfl] at hcut
    rw [first_eq hcut, take_leading, htake]
  have hrest : rest chars ((begin s).passing ['/', '/']) = r := by
    rw [rest_passing, rest_begin, h]
    rfl
  have hslashes : ((begin s).passing ['/']).advance = (begin s).passing ['/', '/'] :=
    advance_passing (by decide) ['/'] _
  rw [hslashes, passComment_eq, hrest, passing_passing, hfirst]
  exact @passing_eq_take s ⟨.comment, '/' :: '/' :: r.takeWhile (· ≠ '\n')⟩ rfl rfl

theorem equalsMark_eq (h : rest chars s = c :: r) {alone withEquals : TokenKind}
    (hc : equalsMark? c = some (alone, withEquals)) :
    (if isFollowedBy chars '=' ((begin s).passing [c]) then
        emit chars withEquals none ((begin s).passing [c]).advance
      else emit chars alone none ((begin s).passing [c])) = s.take (first c r) := by
  have hcut := cut_of_equalsMark r hc
  rw [isFollowedBy_passing h]
  by_cases heq : r.head? = some '='
  · obtain ⟨more, rfl⟩ : ∃ more, r = '=' :: more := List.head?_eq_some_iff.mp heq
    rw [if_pos heq] at hcut
    rw [if_pos (by simp), advance_passing (d := '=') (by decide)]
    exact emit_first h hcut rfl rfl
  · rw [if_neg heq] at hcut
    rw [if_neg (by simpa using heq)]
    exact emit_first h hcut rfl rfl

theorem slash_eq (h : rest chars s = '/' :: r) :
    (if isFollowedBy chars '/' ((begin s).passing ['/']) then
        passComment chars ((begin s).passing ['/']).advance
      else emit chars .slash none ((begin s).passing ['/'])) = s.take (first '/' r) := by
  rw [isFollowedBy_passing h]
  by_cases heq : r.head? = some '/'
  · obtain ⟨more, rfl⟩ : ∃ more, r = '/' :: more := List.head?_eq_some_iff.mp heq
    rw [if_pos (by simp)]
    exact comment_eq h
  · have hcut := cut_slash r
    rw [if_neg heq] at hcut
    rw [if_neg (by simpa using heq)]
    exact emit_first h hcut rfl rfl

theorem layout_eq (hc : isLayout c) : (begin s).passing [c] = s.take (first c r) := by
  rw [first_eq (cut_of_isLayout r hc)]
  exact @passing_eq_take s ⟨.layout, [c]⟩ rfl rfl

theorem stray_eq (hn : c ≠ '\n') (hcut : cut c r = (.stray, 0)) :
    report ((begin s).passing [c]).line (.invalidCharacter c) ((begin s).passing [c]) =
      s.take (first c r) := by
  have hline : ((begin s).passing [c]).line = s.line := by
    simp [passing, begin, hn]
  rw [first_eq hcut, hline]
  exact @report_eq_take s ⟨.stray, [c]⟩ _ rfl rfl

theorem scanLexeme_eq (h : rest chars s = c :: r) :
    scanLexeme chars (begin s) = s.take (first c r) := by
  have hseen : seen chars (begin s) = c := seen_of_rest h
  -- advancing differs from passing the character in the count of lines alone
  have hadvance (hn : c ≠ '\n') : (begin s).advance = (begin s).passing [c] :=
    (passing_singleton hn).symm
  unfold scanLexeme
  simp only [hseen]
  split
  · next kind hmark =>
    have hn : c ≠ '\n' := by
      rintro rfl
      cases hmark
    rw [hadvance hn]
    exact emit_first h (cut_of_plainMark r hmark) rfl rfl
  next hmark =>
  split
  · next alone withEquals hmark =>
    have hn : c ≠ '\n' := by
      rintro rfl
      cases hmark
    rw [hadvance hn]
    exact equalsMark_eq h hmark
  next heq =>
  split
  · next hslash =>
    subst hslash
    rw [hadvance (by decide)]
    exact slash_eq h
  next hslash =>
  -- the scanner takes line breaks apart from the other layout
  split
  · next hblank =>
    rw [hadvance (by rintro rfl; simp at hblank)]
    exact layout_eq (by rcases hblank with rfl | rfl | rfl <;> rfl)
  next hblank =>
  split
  · next hnewline =>
    subst hnewline
    exact layout_eq (c := '\n') rfl
  next hnewline =>
  rw [hadvance hnewline]
  split
  · next hquote =>
    subst hquote
    by_cases hlt : leading (· ≠ '"') r < r.length
    · exact string_eq_of_closed h hlt
    · exact string_eq_of_open h hlt
  next hquote =>
  split
  · next hdigit => exact number_eq h hdigit
  next hdigit =>
  split
  · next hletter => exact word_eq h hletter
  next hletter =>
    have hlayout : isLayout c = false := by simp_all [isLayout]
    exact stray_eq hnewline (by simp [cut, hmark, heq, hslash, hlayout, hquote, hdigit, hletter])

/-! ## The whole text -/

theorem scanAll_eq (s : Scanner) : scanAll chars s = (segments (rest chars s)).foldl take s := by
  fun_induction scanAll chars s with
  | case1 s hlt ih =>
    match hr : rest chars s with
    | [] => exact absurd (rest_eq_nil_iff.mp hr) (Nat.not_le_of_lt hlt)
    | c :: r =>
      have hstep : scanLexeme chars { s with start := s.current } = s.take (first c r) :=
        scanLexeme_eq hr
      rw [hstep] at ih
      rw [hstep, ih, rest_take_first hr, segments, List.foldl_cons]
  | case2 s hlt =>
    rw [rest_eq_nil_iff.mpr (Nat.le_of_not_lt hlt), segments]
    rfl

section
variable (s : Scanner) (segment : Segment) (ss : List Segment)

@[simp] theorem take_line : (s.take segment).line = s.line + segment.lineBreaks := rfl

@[simp] theorem take_tokens :
    (s.take segment).tokens = s.tokens ++ (PlacedSegment.mk s.line segment).token?.toArray := rfl

@[simp] theorem take_errors :
    (s.take segment).errors = s.errors ++ (PlacedSegment.mk s.line segment).error?.toArray := rfl

theorem line_foldl_take :
    (ss.foldl take s).line = s.line + (ss.flatMap Segment.chars).count '\n' := by
  induction ss generalizing s with
  | nil => simp
  | cons segment ss ih =>
    simp [ih, Segment.lineBreaks, Nat.add_assoc]

theorem tokens_foldl_take :
    (ss.foldl take s).tokens.toList =
      s.tokens.toList ++ (place s.line ss).filterMap PlacedSegment.token? := by
  induction ss generalizing s with
  | nil => simp [place]
  | cons segment ss ih =>
    rw [List.foldl_cons, ih, take_line, take_tokens, place, List.filterMap_cons]
    cases (PlacedSegment.mk s.line segment).token? <;> simp

theorem errors_foldl_take :
    (ss.foldl take s).errors.toList =
      s.errors.toList ++ (place s.line ss).filterMap PlacedSegment.error? := by
  induction ss generalizing s with
  | nil => simp [place]
  | cons segment ss ih =>
    rw [List.foldl_cons, ih, take_line, take_errors, place, List.filterMap_cons]
    cases (PlacedSegment.mk s.line segment).error? <;> simp

end

end Scanner

/-- The tokens and the errors of a text are those of its segments. -/
theorem scan_eq (source : String) :
    scan source =
      { tokens := (Segment.place 1 (segments source.toList)).filterMap PlacedSegment.token? ++
          [Token.endMarker (1 + source.toList.count '\n')]
        errors := (Segment.place 1 (segments source.toList)).filterMap PlacedSegment.error? } := by
  have hrest : Scanner.rest source.toList.toArray .initial = source.toList := rfl
  have hall := @Scanner.scanAll_eq source.toList.toArray .initial
  rw [hrest] at hall
  rw [scan, hall, Scanner.tokens_foldl_take, Scanner.errors_foldl_take, Scanner.line_foldl_take,
    Segment.flatMap_chars_segments]
  rfl

end Lox
