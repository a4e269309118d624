import Lox.Proofs.Scanning.Segment

/-!
What a segment may be, told without the cut: the forms of layout, comments, marks, numbers, words
and strings, and a single character that begins none of them. A text is munched when every segment
is the longest of all that stand at its start. There is exactly one such way to split a text, and
it is the one that the cut takes (`munches_iff`).
-/

namespace Lox.Segment

open Scanner (isLetter isWordChar plainMark? equalsMark?)

/-! ## Forms -/

/-- The spellings of the marks. -/
def marks : List (List Char × TokenKind) :=
  [(['('], .leftParen), ([')'], .rightParen), (['{'], .leftBrace), (['}'], .rightBrace),
    ([','], .comma), (['.'], .dot), (['-'], .minus), (['+'], .plus), ([';'], .semicolon),
    (['/'], .slash), (['*'], .star), (['!'], .bang), (['!', '='], .bangEqual),
    (['='], .equal), (['=', '='], .equalEqual), (['>'], .greater), (['>', '='], .greaterEqual),
    (['<'], .less), (['<', '='], .lessEqual)]

/-- A text of a form, and what may stand behind it. -/
inductive Matches : Shape → List Char → List Char → Prop
  | layout {c : Char} (h : c ∈ [' ', '\r', '\t', '\n']) (after : List Char) :
    Matches .layout [c] after
  | comment {text after : List Char} (h : '\n' ∉ text) (hend : ∀ c ∈ after.head?, c = '\n') :
    Matches .comment ('/' :: '/' :: text) after
  | mark {text : List Char} {kind : TokenKind} (h : (text, kind) ∈ marks) (after : List Char) :
    Matches (.mark kind) text after
  | whole {digits : List Char} (hne : digits ≠ []) (h : ∀ d ∈ digits, d.isDigit)
      (after : List Char) :
    Matches .number digits after
  | decimal {digits more : List Char} (hne : digits ≠ []) (h : ∀ d ∈ digits, d.isDigit)
      (hne' : more ≠ []) (h' : ∀ d ∈ more, d.isDigit) (after : List Char) :
    Matches .number (digits ++ '.' :: more) after
  | word {c : Char} {more : List Char} (hc : isLetter c) (h : ∀ d ∈ more, isWordChar d)
      (after : List Char) :
    Matches .word (c :: more) after
  | string {text : List Char} (h : '"' ∉ text) (after : List Char) :
    Matches .string ('"' :: text ++ ['"']) after
  | openString {text : List Char} (h : '"' ∉ text) : Matches .openString ('"' :: text) []

/-- A form, or else any single character. -/
def IsCandidate (s : Segment) (after : List Char) : Prop :=
  Matches s.shape s.chars after ∨
    ∃ c, s = ⟨.stray, [c]⟩ ∧
      ∀ shape text more, text ++ more = c :: after → ¬Matches shape text more

/-- Nothing longer stands at the same place. -/
def IsLongest (s : Segment) (after : List Char) : Prop :=
  IsCandidate s after ∧
    ∀ t more, t.chars ++ more = s.chars ++ after → IsCandidate t more →
      t.chars.length ≤ s.chars.length

/-- The text is the segments in a row, each of them the longest at its place. -/
inductive Munches : List Char → List Segment → Prop
  | nil : Munches [] []
  | cons {s : Segment} {after : List Char} {ss : List Segment} (h : IsLongest s after)
      (hafter : Munches after ss) :
    Munches (s.chars ++ after) (s :: ss)

/-! ## Runs -/

theorem leading_append {p : Char → Bool} {text : List Char} (h : ∀ c ∈ text, p c)
    (more : List Char) : leading p (text ++ more) = text.length + leading p more := by
  rw [leading, List.takeWhile_append_of_pos h, List.length_append, leading]

theorem le_leading_append {p : Char → Bool} {text : List Char} (h : ∀ c ∈ text, p c)
    (more : List Char) : text.length ≤ leading p (text ++ more) := by
  rw [leading_append h]
  exact Nat.le_add_right _ _

theorem forall_ne_of_not_mem {b : Char} {text : List Char} (h : b ∉ text) :
    ∀ c ∈ text, decide (c ≠ b) = true := by
  intro c hc
  rw [decide_eq_true_iff]
  rintro rfl
  exact h hc

theorem mem_marks_of_plainMark {c : Char} {kind : TokenKind} (h : plainMark? c = some kind) :
    ([c], kind) ∈ marks := by
  unfold plainMark? at h
  split at h <;> cases h <;> decide

theorem mem_marks_of_equalsMark {c : Char} {alone withEquals : TokenKind}
    (h : equalsMark? c = some (alone, withEquals)) :
    ([c], alone) ∈ marks ∧ ([c, '='], withEquals) ∈ marks := by
  unfold equalsMark? at h
  split at h <;> cases h <;> decide

/-- A mark is plain, alone, with an equals sign, or the slash. -/
theorem of_mem_marks {text : List Char} {kind : TokenKind} (h : (text, kind) ∈ marks) :
    (∃ c, text = [c] ∧ plainMark? c = some kind) ∨
      (∃ c withEquals, text = [c] ∧ equalsMark? c = some (kind, withEquals)) ∨
      (∃ c alone, text = [c, '='] ∧ equalsMark? c = some (alone, kind)) ∨
      (text = ['/'] ∧ kind = .slash) := by
  simp only [marks, List.mem_cons, List.not_mem_nil, or_false, Prod.mk.injEq] at h
  rcases h with h | h | h | h | h | h | h | h | h | h | h | h | h | h | h | h | h | h | h <;>
    obtain ⟨rfl, rfl⟩ := h
  all_goals first
    | exact .inl ⟨_, rfl, rfl⟩
    | exact .inr (.inl ⟨_, _, rfl, rfl⟩)
    | exact .inr (.inr (.inl ⟨_, _, rfl, rfl⟩))
    | exact .inr (.inr (.inr ⟨rfl, rfl⟩))

/-! ## No form is longer than the cut -/

theorem length_chars_first (c : Char) (rest : List Char) :
    (first c rest).chars.length = (cut c rest).2 + 1 := by
  rw [first, List.length_cons, List.length_take, Nat.min_eq_left (cut_le c rest)]

section
variable {c : Char} {rest text after : List Char} {shape : Shape}

/-- A text as long as the cut is what the cut takes. -/
theorem eq_first_of_length (hsplit : text ++ after = c :: rest)
    (hlength : text.length = (cut c rest).2 + 1) :
    text = (first c rest).chars := by
  rw [← length_chars_first] at hlength
  exact (List.append_inj (hsplit.trans (chars_first_append c rest).symm) hlength).1

theorem lt_or_eq_first_of_le (hsplit : text ++ after = c :: rest)
    (hshape : (cut c rest).1 = shape) (hle : text.length ≤ (cut c rest).2 + 1) :
    text.length < (first c rest).chars.length ∨ Segment.mk shape text = first c rest := by
  rw [length_chars_first]
  rcases Nat.lt_or_eq_of_le hle with hlt | hlength
  · exact .inl hlt
  · right
    rw [eq_first_of_length hsplit hlength, ← hshape]
    rfl

theorem mark_lt_or_eq_first {kind : TokenKind} (h : (text, kind) ∈ marks)
    (hsplit : text ++ after = c :: rest) :
    text.length < (first c rest).chars.length ∨ Segment.mk (.mark kind) text = first c rest := by
  rcases of_mem_marks h with ⟨c, rfl, hc⟩ | ⟨c, withEquals, rfl, hc⟩ | ⟨c, alone, rfl, hc⟩ |
    ⟨rfl, rfl⟩
  · obtain ⟨rfl, rfl⟩ : c = _ ∧ after = rest := List.cons.inj hsplit
    have hcut := cut_of_plainMark after hc
    exact lt_or_eq_first_of_le rfl (by rw [hcut]) (by rw [hcut]; exact Nat.le_refl _)
  · obtain ⟨rfl, rfl⟩ : c = _ ∧ after = rest := List.cons.inj hsplit
    have hcut := cut_of_equalsMark after hc
    split at hcut
    · -- the equals sign behind the mark makes a longer one
      left
      rw [length_chars_first, hcut]
      exact Nat.lt_succ_self 1
    · exact lt_or_eq_first_of_le rfl (by rw [hcut]) (by rw [hcut]; exact Nat.le_refl _)
  · obtain ⟨rfl, rfl⟩ : c = _ ∧ '=' :: after = rest := List.cons.inj hsplit
    have hcut := cut_of_equalsMark ('=' :: after) hc
    rw [List.head?_cons, if_pos rfl] at hcut
    exact lt_or_eq_first_of_le rfl (by rw [hcut]) (by rw [hcut]; exact Nat.le_refl _)
  · obtain ⟨rfl, rfl⟩ : '/' = c ∧ after = rest := List.cons.inj hsplit
    have hcut := cut_slash after
    split at hcut
    · next hnext =>
      obtain ⟨more, rfl⟩ := List.head?_eq_some_iff.mp hnext
      -- two slashes begin a comment
      left
      rw [length_chars_first, hcut, leading_cons_of_pos (by decide)]
      exact Nat.succ_lt_succ (Nat.succ_pos _)
    · exact lt_or_eq_first_of_le rfl (by rw [hcut]) (by rw [hcut]; exact Nat.le_refl _)

/-- The cut of a number that starts with the given digits. -/
theorem cut_digits {digits : List Char} (hne : digits ≠ []) (h : ∀ d ∈ digits, d.isDigit)
    (hsplit : digits ++ after = c :: rest) :
    (cut c rest).1 = .number ∧
      (cut c rest).2 + 1 = digits.length + leading Char.isDigit after +
        fraction (after.drop (leading Char.isDigit after)) := by
  obtain ⟨d, digits, rfl⟩ := List.exists_cons_of_ne_nil hne
  obtain ⟨rfl, rfl⟩ : d = c ∧ digits ++ after = rest := List.cons.inj hsplit
  have hmore : ∀ x ∈ digits, x.isDigit := fun x hx => h x (List.mem_cons_of_mem _ hx)
  rw [cut_of_isDigit _ (h _ List.mem_cons_self), leading_append hmore, List.drop_length_add_append]
  refine ⟨rfl, ?_⟩
  simp only [List.length_cons]
  omega

theorem Matches.lt_or_eq_first (h : Matches shape text after)
    (hsplit : text ++ after = c :: rest) :
    text.length < (first c rest).chars.length ∨ Segment.mk shape text = first c rest := by
  cases h with
  | @layout b h =>
    obtain ⟨rfl, rfl⟩ : b = c ∧ after = rest := List.cons.inj hsplit
    have hcut := cut_of_isLayout after (isLayout_iff.mpr (by simpa using h))
    exact lt_or_eq_first_of_le rfl (by rw [hcut]) (by rw [hcut]; exact Nat.le_refl _)
  | @comment text _ h hend =>
    obtain ⟨rfl, rfl⟩ : '/' = c ∧ '/' :: text ++ after = rest := List.cons.inj hsplit
    have hrun := forall_ne_of_not_mem (show '\n' ∉ '/' :: text by simp [h])
    have hcut := cut_slash ('/' :: text ++ after)
    rw [if_pos (by simp)] at hcut
    refine lt_or_eq_first_of_le rfl (by rw [hcut]) ?_
    rw [hcut]
    exact Nat.succ_le_succ (le_leading_append hrun after)
  | mark h => exact mark_lt_or_eq_first h hsplit
  | whole hne h =>
    obtain ⟨hshape, hlength⟩ := cut_digits hne h hsplit
    refine lt_or_eq_first_of_le hsplit hshape ?_
    omega
  | @decimal digits more hne h hne' h' after =>
    rw [List.append_assoc] at hsplit
    obtain ⟨hshape, hlength⟩ := cut_digits hne h hsplit
    obtain ⟨d, more, rfl⟩ := List.exists_cons_of_ne_nil hne'
    have hmore : ∀ x ∈ more, x.isDigit := fun x hx => h' x (List.mem_cons_of_mem _ hx)
    have hrun := le_leading_append hmore after
    -- the dot ends the first run of digits, so that is where the fraction starts
    have hdot : leading Char.isDigit ('.' :: d :: more ++ after) = 0 :=
      leading_cons_of_neg (by decide)
    have hfraction := fraction_of_digit (h' d List.mem_cons_self) (more ++ after)
    rw [hdot, List.drop_zero] at hlength
    rw [← List.append_assoc] at hsplit
    refine lt_or_eq_first_of_le hsplit hshape ?_
    simp only [List.cons_append, hfraction] at hlength
    rw [hlength]
    simp only [List.length_append, List.length_cons]
    omega
  | @word b more hc h =>
    obtain ⟨rfl, rfl⟩ : b = c ∧ more ++ after = rest := List.cons.inj hsplit
    have hcut := cut_of_isLetter (more ++ after) hc
    refine lt_or_eq_first_of_le rfl (by rw [hcut]) ?_
    rw [hcut]
    exact Nat.succ_le_succ (le_leading_append h after)
  | @string text h =>
    rw [List.append_assoc] at hsplit
    obtain ⟨rfl, rfl⟩ : '"' = c ∧ text ++ (['"'] ++ after) = rest := List.cons.inj hsplit
    have hrun := leading_append (forall_ne_of_not_mem h) (['"'] ++ after)
    have hquote : leading (· ≠ '"') (['"'] ++ after) = 0 := leading_cons_of_neg (by decide)
    rw [hquote] at hrun
    have hcut := cut_quote (text ++ (['"'] ++ after))
    rw [hrun, if_pos (by simp)] at hcut
    rw [← List.append_assoc] at hsplit
    exact lt_or_eq_first_of_le hsplit (by rw [hcut]) (by rw [hcut]; simp)
  | @openString text h =>
    rw [List.append_nil] at hsplit
    obtain ⟨rfl, rfl⟩ : '"' = c ∧ text = rest := List.cons.inj hsplit
    -- with no quote left the run goes on to the end of the text
    have hrun := leading_append (forall_ne_of_not_mem h) []
    rw [List.append_nil, leading_nil] at hrun
    have hcut := cut_quote text
    rw [hrun, if_neg (by simp)] at hcut
    exact lt_or_eq_first_of_le (List.append_nil _) (by rw [hcut]) (by rw [hcut]; simp)

end

/-! ## The cut is a form -/

theorem not_mem_takeWhile_ne (b : Char) (rest : List Char) : b ∉ rest.takeWhile (· ≠ b) := by
  intro h
  simpa using List.all_eq_true.mp List.all_takeWhile b h

theorem head?_dropWhile_ne (b : Char) (rest : List Char) :
    ∀ c ∈ (rest.dropWhile (· ≠ b)).head?, c = b := by
  intro c hc
  have := List.head?_dropWhile_not (· ≠ b) rest
  rw [Option.mem_def.mp hc] at this
  simpa using this

theorem matches_slash (rest : List Char) :
    Matches (cut '/' rest).1 ('/' :: rest.take (cut '/' rest).2) (rest.drop (cut '/' rest).2) := by
  have hcut := cut_slash rest
  split at hcut
  · next hnext =>
    obtain ⟨more, rfl⟩ := List.head?_eq_some_iff.mp hnext
    have htake : ('/' :: more).takeWhile (· ≠ '\n') = '/' :: more.takeWhile (· ≠ '\n') :=
      List.takeWhile_cons_of_pos (by decide)
    rw [hcut]
    simp only [take_leading, drop_leading, htake]
    exact .comment (not_mem_takeWhile_ne _ _) (head?_dropWhile_ne _ _)
  · rw [hcut]
    exact @Matches.mark ['/'] .slash (by decide) rest

theorem matches_quote (rest : List Char) :
    Matches (cut '"' rest).1 ('"' :: rest.take (cut '"' rest).2) (rest.drop (cut '"' rest).2) := by
  have hcut := cut_quote rest
  split at hcut
  · next hlt =>
    obtain ⟨d, more, hd, hdrop⟩ := drop_leading_of_lt hlt
    have hquote : d = '"' := by simpa using hd
    rw [hcut]
    simp only [List.take_add, take_leading, hdrop, hquote]
    exact .string (not_mem_takeWhile_ne _ _) _
  · next hlt =>
    have hnone := not_mem_takeWhile_ne '"' rest
    rw [takeWhile_eq_self_of_not_lt hlt] at hnone
    have hlength : leading (· ≠ '"') rest = rest.length :=
      Nat.le_antisymm (leading_le _ _) (Nat.le_of_not_lt hlt)
    rw [hcut]
    simp only [hlength, List.take_length, List.drop_length]
    exact .openString hnone

theorem matches_number {c : Char} (hc : c.isDigit) (rest : List Char) :
    Matches (cut c rest).1 (c :: rest.take (cut c rest).2) (rest.drop (cut c rest).2) := by
  have hwhole : ∀ d ∈ c :: rest.takeWhile Char.isDigit, d.isDigit :=
    List.forall_mem_cons.mpr ⟨hc, List.all_eq_true.mp List.all_takeWhile⟩
  rw [cut_of_isDigit rest hc]
  simp only [List.take_add, take_leading]
  rcases fraction_eq (rest.drop (leading Char.isDigit rest)) with
    hnone | ⟨d, more, hd, hmore, hsome⟩
  · rw [hnone, List.take_zero, List.append_nil]
    exact .whole (List.cons_ne_nil _ _) hwhole _
  · have htake : ('.' :: d :: more).take (2 + leading Char.isDigit more) =
        '.' :: d :: more.takeWhile Char.isDigit := by
      rw [List.take_add, ← take_leading]
      rfl
    have hdigits : ∀ x ∈ d :: more.takeWhile Char.isDigit, x.isDigit :=
      List.forall_mem_cons.mpr ⟨hd, List.all_eq_true.mp List.all_takeWhile⟩
    rw [hsome, hmore, htake]
    exact .decimal (List.cons_ne_nil _ _) hwhole (List.cons_ne_nil _ _) hdigits _

/-- What the cut takes has a form, unless its first character is stray. -/
theorem cut_eq_stray_or_matches (c : Char) (rest : List Char) :
    cut c rest = (.stray, 0) ∨
      Matches (cut c rest).1 (c :: rest.take (cut c rest).2) (rest.drop (cut c rest).2) := by
  match hplain : plainMark? c with
  | some kind =>
    right
    rw [cut_of_plainMark rest hplain]
    exact .mark (mem_marks_of_plainMark hplain) rest
  | none =>
  match hequals : equalsMark? c with
  | some (alone, withEquals) =>
    right
    have hcut := cut_of_equalsMark rest hequals
    have hmarks := mem_marks_of_equalsMark hequals
    split at hcut
    · next hnext =>
      obtain ⟨more, rfl⟩ := List.head?_eq_some_iff.mp hnext
      rw [hcut]
      exact .mark hmarks.2 more
    · rw [hcut]
      exact .mark hmarks.1 rest
  | none =>
  by_cases hslash : c = '/'
  · rw [hslash]
    exact .inr (matches_slash rest)
  by_cases hlayout : isLayout c
  · right
    rw [cut_of_isLayout rest hlayout]
    exact .layout (by simpa using isLayout_iff.mp hlayout) rest
  by_cases hquote : c = '"'
  · rw [hquote]
    exact .inr (matches_quote rest)
  by_cases hdigit : c.isDigit
  · exact .inr (matches_number hdigit rest)
  by_cases hletter : isLetter c
  · right
    rw [cut_of_isLetter rest hletter]
    simp only [take_leading]
    exact .word hletter (List.all_eq_true.mp List.all_takeWhile) _
  · left
    simp [cut, hplain, hequals, hslash, hlayout, hquote, hdigit, hletter]

theorem Matches.shape_ne_stray {shape : Shape} {text after : List Char}
    (h : Matches shape text after) : shape ≠ .stray := by
  cases h <;> exact Shape.noConfusion

theorem Matches.ne_nil {shape : Shape} {text after : List Char} (h : Matches shape text after) :
    text ≠ [] := by
  have hmarks : ∀ m ∈ marks, m.1 ≠ [] := by decide
  cases h with
  | mark h => exact hmarks _ h
  | whole hne => exact hne
  | decimal hne => exact List.append_ne_nil_of_left_ne_nil hne _
  | _ => exact List.cons_ne_nil _ _

theorem isCandidate_first (c : Char) (rest : List Char) :
    IsCandidate (first c rest) (afterFirst c rest) := by
  rcases cut_eq_stray_or_matches c rest with hcut | hmatches
  · have hfirst : first c rest = ⟨.stray, [c]⟩ := first_eq hcut
    have hafter : afterFirst c rest = rest := by
      rw [afterFirst, hcut]
      rfl
    refine .inr ⟨c, hfirst, fun shape text more hsplit h => ?_⟩
    rw [hafter] at hsplit
    -- no form is longer than the cut, which is one character here, and none is of its shape
    rcases h.lt_or_eq_first hsplit with hlt | heq
    · rw [hfirst, List.length_singleton, Nat.lt_one_iff, List.length_eq_zero_iff] at hlt
      exact h.ne_nil hlt
    · rw [hfirst] at heq
      exact h.shape_ne_stray (Segment.mk.inj heq).1
  · exact .inl hmatches

/-! ## There is one way to munch a text -/

theorem IsCandidate.lt_or_eq_first {s : Segment} {after : List Char} (h : IsCandidate s after)
    {c : Char} {rest : List Char} (hsplit : s.chars ++ after = c :: rest) :
    s.chars.length < (first c rest).chars.length ∨ s = first c rest := by
  rcases h with h | ⟨c, rfl, hnone⟩
  · exact h.lt_or_eq_first hsplit
  · obtain ⟨rfl, rfl⟩ : c = _ ∧ after = rest := List.cons.inj hsplit
    rcases cut_eq_stray_or_matches c after with hcut | hmatches
    · exact .inr (first_eq hcut).symm
    · exact absurd hmatches (hnone _ _ _ (chars_first_append c after))

theorem isLongest_first (c : Char) (rest : List Char) :
    IsLongest (first c rest) (afterFirst c rest) := by
  refine ⟨isCandidate_first c rest, fun t more hsplit h => ?_⟩
  rw [chars_first_append] at hsplit
  rcases h.lt_or_eq_first hsplit with hlt | heq
  · exact Nat.le_of_lt hlt
  · exact Nat.le_of_eq (by rw [heq])

theorem IsLongest.eq_first {s : Segment} {after : List Char} (h : IsLongest s after)
    {c : Char} {rest : List Char} (hsplit : s.chars ++ after = c :: rest) :
    s = first c rest ∧ after = afterFirst c rest := by
  have hfirst : s = first c rest := by
    -- the cut is a candidate as well, so it is not longer
    rcases h.1.lt_or_eq_first hsplit with hlt | heq
    · have hle := h.2 _ _ ((chars_first_append c rest).trans hsplit.symm) (isCandidate_first c rest)
      exact absurd hlt (Nat.not_lt_of_le hle)
    · exact heq
  refine ⟨hfirst, ?_⟩
  rw [hfirst, ← chars_first_append c rest] at hsplit
  exact List.append_cancel_left hsplit

theorem munches_segments (source : List Char) : Munches source (segments source) := by
  fun_induction segments source with
  | case1 => exact .nil
  | case2 c rest ih =>
    rw [← chars_first_append c rest]
    exact .cons (isLongest_first c rest) ih

theorem IsCandidate.chars_ne_nil {s : Segment} {after : List Char} (h : IsCandidate s after) :
    s.chars ≠ [] := by
  rcases h with h | ⟨c, rfl, -⟩
  · exact h.ne_nil
  · exact List.cons_ne_nil c []

theorem Munches.eq_segments {source : List Char} {ss : List Segment} (h : Munches source ss) :
    ss = segments source := by
  induction h with
  | nil => rw [segments]
  | @cons s after ss h hafter ih =>
    obtain ⟨c, rest, hsplit⟩ : ∃ c rest, s.chars ++ after = c :: rest :=
      List.exists_cons_of_ne_nil (List.append_ne_nil_of_left_ne_nil h.1.chars_ne_nil _)
    obtain ⟨hs, hrest⟩ := h.eq_first hsplit
    rw [hsplit, segments, ← hs, ← hrest, ih]

theorem munches_iff {source : List Char} {ss : List Segment} :
    Munches source ss ↔ ss = segments source := by
  refine ⟨Munches.eq_segments, ?_⟩
  rintro rfl
  exact munches_segments source

end Lox.Segment
