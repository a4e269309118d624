import Lox.Proofs.Scanning.Bounds
import Lox.Proofs.Scanning.Steps
import Mathlib.Data.List.Intervals

/-!
The rounds of a scan. In each round the scanner takes one lexeme, layout character or comment.
Advancing has no check of its own: what keeps the cursor within the text are the conditions of the
loops, which the null character seen behind the text never satisfies. So a round is told once more
with a log of the characters that it passes and the slices that it takes (`Logged`). Without the log
it is the round itself, and the log is that of a cursor that goes over its lexeme once and never
beyond the text (`Logs`). From round to round it follows that a scan passes every character exactly
once and ends (`scan_rounds`).
-/

namespace Lox

namespace Scanner

/-! ## Logs -/

/-- The characters from one position up to another. -/
structure Slice where
  start : Nat
  stop : Nat
deriving DecidableEq, Repr

/-- A value with what has been done to the text on the way to it. -/
structure Logged (α : Type) where
  value : α
  /-- Where the characters stand that have been passed. -/
  passed : List Nat
  slices : List Slice

namespace Logged

instance : Monad Logged where
  pure a := ⟨a, [], []⟩
  bind r f :=
    let rest := f r.value
    ⟨rest.value, r.passed ++ rest.passed, r.slices ++ rest.slices⟩

def advance (s : Scanner) : Logged Scanner :=
  ⟨s.advance, [s.current], []⟩

section
variable (chars : Array Char)

def slice (start stop : Nat) : Logged (List Char) :=
  ⟨(chars.extract start stop).toList, [], [⟨start, stop⟩]⟩

/-- The loops of the scanner in one: it passes characters as long as there are `more`, and `line`
tells which line it is on behind the character ahead. -/
def passLoop (more : Scanner → Prop) [DecidablePred more]
    (hmore : ∀ s, more s → s.current < chars.size) (line : Scanner → Nat) (s : Scanner) :
    Logged Scanner :=
  if more s then
    let rest := passLoop more hmore line { s.advance with line := line s }
    { rest with passed := s.current :: rest.passed }
  else pure s
termination_by chars.size - s.current
decreasing_by
  have := hmore s ‹more s›
  simp only [Scanner.advance]
  omega

def passWhile (p : Char → Bool) (hp : p '\x00' = false) : Scanner → Logged Scanner :=
  passLoop chars (fun s => p (seen chars s)) (fun _ => lt_size_of_seen chars hp) Scanner.line

def passComment : Scanner → Logged Scanner :=
  passLoop chars (fun s => s.current < chars.size ∧ seen chars s ≠ '\n') (fun _ => And.left)
    Scanner.line

def passString : Scanner → Logged Scanner :=
  passLoop chars (fun s => s.current < chars.size ∧ seen chars s ≠ '"') (fun _ => And.left)
    fun s => if seen chars s = '\n' then s.line + 1 else s.line

def emit (kind : TokenKind) (literal : Option Literal) (s : Scanner) : Logged Scanner := do
  let lexeme ← slice chars s.start s.current
  pure { s with tokens := s.tokens.push ⟨s.line, kind, String.ofList lexeme, literal⟩ }

def string (s : Scanner) : Logged Scanner := do
  let passed ← passString chars s
  if isAtEnd chars passed then pure (report s.line .unterminatedString passed)
  else
    let closed ← advance passed
    let inside ← slice chars (closed.start + 1) (closed.current - 1)
    emit chars .string (some (.string (String.ofList inside))) closed

def passDigits : Scanner → Logged Scanner :=
  passWhile chars Char.isDigit isDigit_null

def passFraction (whole : Scanner) : Logged Scanner := do
  if seen chars whole = '.' ∧ (seenNext chars whole).isDigit then
    passDigits chars (← advance whole)
  else pure whole

def number (s : Scanner) : Logged Scanner := do
  let whole ← passDigits chars s
  let passed ← passFraction chars whole
  let lexeme ← slice chars passed.start passed.current
  let value := (Decimal.ofText? lexeme).getD Decimal.notANumber
  emit chars .number (some (.number value)) passed

def word (s : Scanner) : Logged Scanner := do
  let passed ← passWhile chars isWordChar isWordChar_null s
  let lexeme ← slice chars passed.start passed.current
  emit chars (.ofWord (String.ofList lexeme)) none passed

def scanLexeme (s : Scanner) : Logged Scanner := do
  let c := seen chars s
  let passed ← advance s
  match plainMark? c with
  | some kind => emit chars kind none passed
  | none => match equalsMark? c with
    | some (alone, withEquals) =>
      if isFollowedBy chars '=' passed then emit chars withEquals none (← advance passed)
      else emit chars alone none passed
    | none =>
      if c = '/' then
        if isFollowedBy chars '/' passed then passComment chars (← advance passed)
        else emit chars .slash none passed
      else if c = ' ' ∨ c = '\r' ∨ c = '\t' then pure passed
      else if c = '\n' then pure { passed with line := passed.line + 1 }
      else if c = '"' then string chars passed
      else if c.isDigit then number chars passed
      else if isLetter c then word chars passed
      else pure (report passed.line (.invalidCharacter c) passed)

end

end Logged

/-! ## What a log tells -/

/-- What may be taken of the characters passed since the start of the lexeme: all of them, or those
between the first and the last. -/
inductive IsCut (s : Scanner) : Slice → Prop
  | lexeme : IsCut s ⟨s.start, s.current⟩
  | inside (h : s.start + 2 ≤ s.current) : IsCut s ⟨s.start + 1, s.current - 1⟩

theorem IsCut.within {chars : Array Char} {s : Scanner} {slice : Slice} (h : IsCut s slice)
    (hs : InText chars s) : slice.start ≤ slice.stop ∧ slice.stop ≤ chars.size := by
  obtain ⟨hstart, hcurrent⟩ := hs
  cases h with
  | lexeme => exact ⟨hstart, hcurrent⟩
  | inside h => constructor <;> dsimp only <;> omega

/-- The log belongs to the way from `s` to `t`. The characters in between have been passed, each
once and in order, and slices have been taken at the end only. -/
structure Logs (chars : Array Char) (s : Scanner) (r : Logged Scanner) (t : Scanner) : Prop where
  value_eq : r.value = t
  start_eq : t.start = s.start
  current_le : s.current ≤ t.current
  inText : InText chars t
  passed_eq : r.passed = List.Ico s.current t.current
  isCut : ∀ slice ∈ r.slices, IsCut t slice

namespace Logs

variable {chars : Array Char} {s t u : Scanner}

/-- A step that leaves the cursor where it is. -/
theorem pure (h : InText chars s) (hstart : t.start = s.start) (hcurrent : t.current = s.current) :
    Logs chars s (Pure.pure t) t where
  value_eq := rfl
  start_eq := hstart
  current_le := hcurrent.ge
  inText := ⟨hstart ▸ hcurrent ▸ h.start_le, hcurrent ▸ h.current_le⟩
  passed_eq := by rw [hcurrent, List.Ico.self_empty]; rfl
  isCut := fun _ hslice => nomatch hslice

theorem advance (h : InText chars s) (hlt : s.current < chars.size) :
    Logs chars s (Logged.advance s) s.advance where
  value_eq := rfl
  start_eq := rfl
  current_le := Nat.le_succ _
  inText := h.advance hlt
  passed_eq := List.Ico.succ_singleton.symm
  isCut := fun _ hslice => nomatch hslice

theorem bind {r : Logged Scanner} {f : Scanner → Logged Scanner} (h : Logs chars s r t)
    (hslices : r.slices = []) (hf : Logs chars t (f t) u) : Logs chars s (r >>= f) u := by
  obtain ⟨value, passed, slices⟩ := r
  obtain rfl : value = t := h.value_eq
  obtain rfl : slices = [] := hslices
  refine ⟨hf.value_eq, hf.start_eq.trans h.start_eq, h.current_le.trans hf.current_le, hf.inText,
    ?_, hf.isCut⟩
  calc passed ++ (f value).passed
      = List.Ico s.current value.current ++ List.Ico value.current u.current := by
        rw [← hf.passed_eq, ← h.passed_eq]
    _ = List.Ico s.current u.current :=
        List.Ico.append_consecutive h.current_le hf.current_le

theorem slice {start stop : Nat} {f : List Char → Logged Scanner}
    (hf : Logs chars s (f (chars.extract start stop).toList) t) (hcut : IsCut t ⟨start, stop⟩) :
    Logs chars s (Logged.slice chars start stop >>= f) t where
  value_eq := hf.value_eq
  start_eq := hf.start_eq
  current_le := hf.current_le
  inText := hf.inText
  passed_eq := hf.passed_eq
  isCut := List.forall_mem_cons.mpr ⟨hcut, hf.isCut⟩

theorem emit (h : InText chars s) (kind : TokenKind) (literal : Option Literal) :
    Logs chars s (Logged.emit chars kind literal s) (Scanner.emit chars kind literal s) :=
  slice (pure h rfl rfl) .lexeme

/-! ## Loops -/

section
variable {more : Scanner → Prop} [DecidablePred more]
  {hmore : ∀ s, more s → s.current < chars.size} {line : Scanner → Nat}

theorem slices_passLoop (s : Scanner) :
    (Logged.passLoop chars more hmore line s).slices = [] := by
  fun_induction Logged.passLoop chars more hmore line s with
  | case1 s hs rest ih => exact ih
  | case2 s hs => rfl

/-- A function with the equation of the loop. The induction is that of the loop; a character that is
passed stands in the text, as there are more. -/
theorem passLoop {f : Scanner → Scanner}
    (hf : ∀ s, f s = if more s then f { s.advance with line := line s } else s)
    (h : InText chars s) : Logs chars s (Logged.passLoop chars more hmore line s) (f s) := by
  fun_induction Logged.passLoop chars more hmore line s with
  | case1 s hs rest ih =>
    have hnext : InText chars { s.advance with line := line s } :=
      ⟨Nat.le_succ_of_le h.start_le, hmore s hs⟩
    obtain ⟨hvalue, hstart, hcurrent, hin, hpassed, hcut⟩ := ih hnext
    rw [hf, if_pos hs]
    refine ⟨hvalue, hstart, Nat.le_of_succ_le hcurrent, hin, ?_, hcut⟩
    rw [List.Ico.eq_cons hcurrent, ← advance_current, ← hpassed]
  | case2 s hs =>
    rw [hf, if_neg hs]
    exact pure h rfl rfl

end

theorem passWhile (h : InText chars s) (p : Char → Bool) (hp : p '\x00' = false) :
    Logs chars s (Logged.passWhile chars p hp s) (Scanner.passWhile chars p hp s) :=
  passLoop (f := Scanner.passWhile chars p hp) (fun s => by rw [Scanner.passWhile]; rfl) h

theorem passComment (h : InText chars s) :
    Logs chars s (Logged.passComment chars s) (Scanner.passComment chars s) :=
  passLoop (f := Scanner.passComment chars) (fun s => by rw [Scanner.passComment]; rfl) h

theorem passString (h : InText chars s) :
    Logs chars s (Logged.passString chars s) (Scanner.passString chars s) :=
  passLoop (f := Scanner.passString chars) (fun s => by rw [Scanner.passString]) h

/-! ## Lexemes -/

/-- Behind the opening quote, so that two quotes have been passed where the inside is taken. -/
theorem string (h : InText chars s) (hlt : s.start < s.current) :
    Logs chars s (Logged.string chars s) (Scanner.string chars s) := by
  have hpassed := passString h
  refine hpassed.bind (slices_passLoop s) ?_
  rw [Scanner.string]
  by_cases hend : isAtEnd chars (Scanner.passString chars s)
  · simp only [hend, if_true]
    exact pure hpassed.inText rfl rfl
  · have hsize : (Scanner.passString chars s).current < chars.size := by
      simpa [isAtEnd] using hend
    have hclosed := advance hpassed.inText hsize
    simp only [hend]
    refine hclosed.bind rfl (slice (emit hclosed.inText _ _) (.inside ?_))
    have hstart := hpassed.start_eq
    have hle := hpassed.current_le
    change (Scanner.passString chars s).start + 2 ≤ (Scanner.passString chars s).current + 1
    omega

theorem slices_passFraction (whole : Scanner) : (Logged.passFraction chars whole).slices = [] := by
  unfold Logged.passFraction
  split
  · exact slices_passLoop whole.advance
  · rfl

theorem passFraction (h : InText chars s) :
    Logs chars s (Logged.passFraction chars s)
      (if seen chars s = '.' ∧ (seenNext chars s).isDigit then passDigits chars s.advance
        else s) := by
  unfold Logged.passFraction
  split
  · next hfraction =>
    have hlt := lt_size_of_seen_eq hfraction.1 (by decide)
    exact (advance h hlt).bind rfl (passWhile (h.advance hlt) _ _)
  · exact pure h rfl rfl

theorem number (h : InText chars s) :
    Logs chars s (Logged.number chars s) (Scanner.number chars s) := by
  have hwhole : Logs chars s (Logged.passDigits chars s) (passDigits chars s) := passWhile h _ _
  have hpassed := passFraction hwhole.inText
  exact hwhole.bind (slices_passLoop s) <| hpassed.bind (slices_passFraction _) <|
    slice (emit hpassed.inText _ _) .lexeme

theorem word (h : InText chars s) : Logs chars s (Logged.word chars s) (Scanner.word chars s) := by
  have hpassed := passWhile h isWordChar isWordChar_null
  exact hpassed.bind (slices_passLoop s) (slice (emit hpassed.inText _ _) .lexeme)

/-- What a round does, whichever lexeme it takes. -/
theorem scanLexeme (hstart : s.start = s.current) (hlt : s.current < chars.size) :
    Logs chars s (Logged.scanLexeme chars s) (Scanner.scanLexeme chars s) := by
  have hpassed : Logs chars s (Logged.advance s) s.advance :=
    advance ⟨hstart.le, hlt.le⟩ hlt
  have h := hpassed.inText
  -- every arm goes on behind the first character
  refine hpassed.bind rfl ?_
  unfold Scanner.scanLexeme
  dsimp only
  cases plainMark? (seen chars s) with
  | some kind => exact emit h _ _
  | none =>
  cases equalsMark? (seen chars s) with
  | some kinds =>
    dsimp only
    split
    · next hf =>
      have hnext := advance h (lt_size_of_isFollowedBy hf)
      exact hnext.bind rfl (emit hnext.inText _ _)
    · exact emit h _ _
  | none =>
  dsimp only
  split
  · split
    · next hf =>
      have hnext := advance h (lt_size_of_isFollowedBy hf)
      exact hnext.bind rfl (passComment hnext.inText)
    · exact emit h _ _
  split
  · exact pure h rfl rfl
  split
  · exact pure h rfl rfl
  split
  · exact string h (by simp [Scanner.advance, hstart])
  split
  · exact number h
  split
  · exact word h
  · exact pure h rfl rfl

end Logs

/-! ## The rounds -/

/-- A round from `s` on goes ahead within the text: from a character of it to behind that character,
and to the end of the text at most. It passes the characters of its lexeme and so none that is not
there. What it takes of the text, the lexeme or the inside of a string, is in order and within the
text. -/
structure Advances (chars : Array Char) (s : Scanner) : Prop where
  start_eq_current : s.start = s.current
  current_lt : s.current < chars.size
  value_eq : (Logged.scanLexeme chars s).value = scanLexeme chars s
  start_eq : (scanLexeme chars s).start = s.start
  start_lt_current : (scanLexeme chars s).start < (scanLexeme chars s).current
  current_le : (scanLexeme chars s).current ≤ chars.size
  passed_eq : (Logged.scanLexeme chars s).passed =
    List.Ico (scanLexeme chars s).start (scanLexeme chars s).current
  passed_lt : ∀ position ∈ (Logged.scanLexeme chars s).passed, position < chars.size
  slices_within : ∀ slice ∈ (Logged.scanLexeme chars s).slices,
    IsCut (scanLexeme chars s) slice ∧ slice.start ≤ slice.stop ∧ slice.stop ≤ chars.size

theorem advances {chars : Array Char} {s : Scanner} (hstart : s.start = s.current)
    (hlt : s.current < chars.size) : Advances chars s := by
  obtain ⟨hvalue, hkept, -, hin, hpassed, hcut⟩ := Logs.scanLexeme hstart hlt
  have hahead : s.current < (scanLexeme chars s).current := current_lt_scanLexeme s
  refine ⟨hstart, hlt, hvalue, hkept, hkept.trans_lt (hstart.trans_lt hahead), hin.current_le, ?_,
    fun position hp => ?_, fun slice hs => ⟨hcut slice hs, (hcut slice hs).within hin⟩⟩
  · rw [hkept, hstart]
    exact hpassed
  · rw [hpassed] at hp
    exact (List.Ico.mem.mp hp).2.trans_le hin.current_le

/-- From `s` on the loop over the text goes through one round for each of `starts`, which tells
where the scanner stands at the start of the round, and comes to `last`. -/
inductive Rounds (chars : Array Char) : Scanner → List Scanner → Scanner → Prop
  | ended {s : Scanner} (h : ¬s.current < chars.size) : Rounds chars s [] s
  | round {s last : Scanner} {starts : List Scanner} (h : s.current < chars.size)
    (hrest : Rounds chars (scanLexeme chars (begin s)) starts last) :
    Rounds chars s (begin s :: starts) last

namespace Rounds

variable {chars : Array Char} {s last last' : Scanner} {starts starts' : List Scanner}

theorem exists_scanAll (s : Scanner) : ∃ starts, Rounds chars s starts (scanAll chars s) := by
  fun_induction scanAll chars s with
  | case1 s hlt ih =>
    obtain ⟨starts, hstarts⟩ := ih
    exact ⟨_, .round hlt hstarts⟩
  | case2 s hlt => exact ⟨[], .ended hlt⟩

theorem unique (h : Rounds chars s starts last) (h' : Rounds chars s starts' last') :
    starts = starts' ∧ last = last' := by
  induction h generalizing starts' with
  | ended hend =>
    cases h' with
    | ended => exact ⟨rfl, rfl⟩
    | round hlt => exact absurd hlt hend
  | round hlt _ ih =>
    cases h' with
    | ended hend => exact absurd hlt hend
    | round _ hrest =>
      obtain ⟨rfl, rfl⟩ := ih hrest
      exact ⟨rfl, rfl⟩

theorem advances_of_mem (h : Rounds chars s starts last) {b : Scanner} (hb : b ∈ starts) :
    Advances chars b := by
  induction h with
  | ended => cases hb
  | round hlt _ ih =>
    rcases List.mem_cons.mp hb with rfl | hb
    · exact advances rfl hlt
    · exact ih hb

/-- Every character ahead is passed once, and in order. -/
theorem flatMap_passed (h : Rounds chars s starts last) (hs : s.current ≤ chars.size) :
    (starts.flatMap fun b => (Logged.scanLexeme chars b).passed) =
      List.Ico s.current chars.size := by
  induction h with
  | ended hend => exact (List.Ico.eq_nil_of_le (Nat.le_of_not_lt hend)).symm
  | @round s last starts hlt _ ih =>
    have hround : Logs chars (begin s) _ _ := Logs.scanLexeme rfl hlt
    have hin := hround.inText.current_le
    calc (begin s :: starts).flatMap (fun b => (Logged.scanLexeme chars b).passed)
        = List.Ico s.current (scanLexeme chars (begin s)).current ++
            List.Ico (scanLexeme chars (begin s)).current chars.size := by
          rw [List.flatMap_cons, hround.passed_eq, ih hin]
          rfl
      _ = List.Ico s.current chars.size :=
          List.Ico.append_consecutive hround.current_le hin

/-- A round passes at least one character, so there are at most as many as characters ahead. -/
theorem length_le (h : Rounds chars s starts last) (hs : s.current ≤ chars.size) :
    s.current + starts.length ≤ chars.size := by
  induction h with
  | ended => exact hs
  | @round s _ _ hlt _ ih =>
    have hround : Advances chars (begin s) := advances rfl hlt
    have hahead : s.current < (scanLexeme chars (begin s)).current :=
      hround.start_eq.symm.trans_lt hround.start_lt_current
    have hrest := ih hround.current_le
    rw [List.length_cons]
    omega

end Rounds

end Scanner

open Scanner

/-- The rounds of a scan, on any text. The scan ends after them, and there are no more of them than
characters. All together they pass every character once, in order, and each of them advances and
stays within the text. -/
theorem scan_rounds (source : String) :
    ∃ starts : List Scanner,
      (∀ starts' last, Rounds source.toList.toArray .initial starts' last ↔
        starts' = starts ∧ last = scanAll source.toList.toArray .initial) ∧
      starts.length ≤ source.length ∧
      (starts.flatMap fun s => (Logged.scanLexeme source.toList.toArray s).passed) =
        List.range source.length ∧
      ∀ s ∈ starts, Advances source.toList.toArray s := by
  have hsize : source.toList.toArray.size = source.length := source.length_toList
  obtain ⟨starts, hstarts⟩ := @Rounds.exists_scanAll source.toList.toArray .initial
  refine ⟨starts, fun starts' last => ⟨fun h => h.unique hstarts, ?_⟩, ?_, ?_,
    fun s hs => hstarts.advances_of_mem hs⟩
  · rintro ⟨rfl, rfl⟩
    exact hstarts
  · have hlength := hstarts.length_le (Nat.zero_le _)
    rw [hsize] at hlength
    exact Nat.le_of_add_left_le hlength
  · rw [hstarts.flatMap_passed (Nat.zero_le _), hsize]
    exact List.Ico.zero_bot _

/-- Of the empty string an empty slice is taken, which is in order too. -/
example : (Logged.scanLexeme #['"', '"'] .initial).passed = [0, 1] ∧
    (Logged.scanLexeme #['"', '"'] .initial).slices = [⟨1, 1⟩, ⟨0, 2⟩] := by cbv

end Lox
