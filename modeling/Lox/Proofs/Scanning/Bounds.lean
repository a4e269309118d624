import Lox.Token.Scanner

/-!
The bounds of a scan. The scan that looks at every index and takes every slice with a check
(`scan?`) misses none of them, so it is the scan (`scan?_eq`). Looking ahead is guarded where it
happens; that the slices are in order and within the text is an invariant of the lexeme at hand
(`InText`).
-/

namespace Lox

namespace Scanner

/-! ## The checked scan -/

section
variable (chars : Array Char)

def seen? (s : Scanner) : Option Char :=
  if isAtEnd chars s then some '\x00' else chars[s.current]?

def seenNext? (s : Scanner) : Option Char :=
  if chars.size ≤ s.current + 1 then some '\x00' else chars[s.current + 1]?

def isFollowedBy? (expected : Char) (s : Scanner) : Option Bool :=
  if isAtEnd chars s then some false else chars[s.current]?.map (decide <| · = expected)

/-- The characters from one position up to another, if both are in order and within the text. -/
def slice? (start stop : Nat) : Option (List Char) :=
  if start ≤ stop ∧ stop ≤ chars.size then some (chars.extract start stop).toList else none

theorem seen?_eq (s : Scanner) : seen? chars s = some (seen chars s) := by
  unfold seen? seen isAtEnd
  by_cases h : chars.size ≤ s.current
  · simp [h]
  · simp [h, Nat.lt_of_not_le h]

theorem seenNext?_eq (s : Scanner) : seenNext? chars s = some (seenNext chars s) := by
  unfold seenNext? seenNext
  by_cases h : chars.size ≤ s.current + 1
  · simp [h]
  · simp [h, Nat.lt_of_not_le h]

theorem isFollowedBy?_eq (expected : Char) (s : Scanner) :
    isFollowedBy? chars expected s = some (isFollowedBy chars expected s) := by
  unfold isFollowedBy? isFollowedBy isAtEnd
  by_cases h : chars.size ≤ s.current
  · simp [h]
  · simp [h, Nat.lt_of_not_le h]

/-- Only a character of the text can satisfy what the null character does not. -/
theorem lt_size_of_seen? {p : Char → Bool} (hp : p '\x00' = false) {s : Scanner} {c : Char}
    (hs : seen? chars s = some c) (hc : p c) : s.current < chars.size := by
  rw [seen?_eq] at hs
  exact lt_size_of_seen chars hp (by rwa [Option.some.inj hs])

def passWhile? (p : Char → Bool) (hp : p '\x00' = false) (s : Scanner) : Option Scanner :=
  match _ : seen? chars s with
  | none => none
  | some c => if p c then passWhile? p hp s.advance else some s
termination_by chars.size - s.current
decreasing_by
  have := lt_size_of_seen? chars hp ‹seen? chars s = some _› ‹p _›
  simp only [advance]
  omega

def passComment? (s : Scanner) : Option Scanner :=
  if s.current < chars.size then do
    let c ← seen? chars s
    if c ≠ '\n' then passComment? s.advance else some s
  else some s
termination_by chars.size - s.current
decreasing_by
  simp only [advance]
  omega

def passString? (s : Scanner) : Option Scanner :=
  if s.current < chars.size then do
    let c ← seen? chars s
    if c ≠ '"' then
      passString? { s.advance with line := if c = '\n' then s.line + 1 else s.line }
    else some s
  else some s
termination_by chars.size - s.current
decreasing_by
  simp only [advance]
  omega

def lexeme? (s : Scanner) : Option (List Char) :=
  slice? chars s.start s.current

def emit? (kind : TokenKind) (literal : Option Literal) (s : Scanner) : Option Scanner := do
  let lexeme ← lexeme? chars s
  return { s with tokens := s.tokens.push ⟨s.line, kind, String.ofList lexeme, literal⟩ }

def string? (s : Scanner) : Option Scanner := do
  let passed ← passString? chars s
  if isAtEnd chars passed then return report s.line .unterminatedString passed
  let closed := passed.advance
  let inside ← slice? chars (closed.start + 1) (closed.current - 1)
  emit? chars .string (some (.string (String.ofList inside))) closed

theorem isDigit_null : Char.isDigit '\x00' = false := rfl

theorem isWordChar_null : isWordChar '\x00' = false := rfl

def passDigits? (s : Scanner) : Option Scanner :=
  passWhile? chars Char.isDigit isDigit_null s

def passFraction? (whole : Scanner) : Option Scanner := do
  if (← seen? chars whole) = '.' then
    if (← seenNext? chars whole).isDigit then
      return ← passDigits? chars whole.advance
  return whole

def number? (s : Scanner) : Option Scanner := do
  let whole ← passDigits? chars s
  let passed ← passFraction? chars whole
  let value := (Decimal.ofText? (← lexeme? chars passed)).getD Decimal.notANumber
  emit? chars .number (some (.number value)) passed

def word? (s : Scanner) : Option Scanner := do
  let passed ← passWhile? chars isWordChar isWordChar_null s
  emit? chars (.ofWord (String.ofList (← lexeme? chars passed))) none passed

def scanLexeme? (s : Scanner) : Option Scanner := do
  let c ← seen? chars s
  let passed := s.advance
  match plainMark? c with
  | some kind => emit? chars kind none passed
  | none => match equalsMark? c with
    | some (alone, withEquals) =>
      if ← isFollowedBy? chars '=' passed then emit? chars withEquals none passed.advance
      else emit? chars alone none passed
    | none =>
      if c = '/' then
        if ← isFollowedBy? chars '/' passed then passComment? chars passed.advance
        else emit? chars .slash none passed
      else if c = ' ' ∨ c = '\r' ∨ c = '\t' then some passed
      else if c = '\n' then some { passed with line := passed.line + 1 }
      else if c = '"' then string? chars passed
      else if c.isDigit then number? chars passed
      else if isLetter c then word? chars passed
      else some (report passed.line (.invalidCharacter c) passed)

end

variable {chars : Array Char} {s : Scanner}

/-! ## Loops -/

theorem passWhile?_eq (p : Char → Bool) (hp : p '\x00' = false) (s : Scanner) :
    passWhile? chars p hp s = some (passWhile chars p hp s) := by
  fun_induction passWhile chars p hp s with
  | case1 s hs ih =>
    rw [passWhile?]
    split
    · next h => simp [seen?_eq] at h
    · next c h =>
      rw [seen?_eq] at h
      cases h
      rw [if_pos hs, ih]
  | case2 s hs =>
    rw [passWhile?]
    split
    · next h => simp [seen?_eq] at h
    · next c h =>
      rw [seen?_eq] at h
      cases h
      rw [if_neg hs]

theorem passComment?_eq (s : Scanner) : passComment? chars s = some (passComment chars s) := by
  fun_induction passComment chars s with
  | case1 s hs ih =>
    rw [passComment?, if_pos hs.1, seen?_eq]
    simpa [hs.2] using ih
  | case2 s hs =>
    rw [passComment?]
    split
    · next hlt => simpa [seen?_eq] using fun hc => absurd ⟨hlt, hc⟩ hs
    · rfl

theorem passString?_eq (s : Scanner) : passString? chars s = some (passString chars s) := by
  fun_induction passString chars s with
  | case1 s hs ih =>
    rw [passString?, if_pos hs.1, seen?_eq]
    simpa [hs.2] using ih
  | case2 s hs =>
    rw [passString?]
    split
    · next hlt => simpa [seen?_eq] using fun hc => absurd ⟨hlt, hc⟩ hs
    · rfl

/-! ## Slices

A lexeme lies within the text from its start to its end, whatever is passed on the way.
-/

structure InText (chars : Array Char) (s : Scanner) : Prop where
  start_le : s.start ≤ s.current
  current_le : s.current ≤ chars.size

theorem InText.advance (h : InText chars s) (hlt : s.current < chars.size) :
    InText chars s.advance :=
  ⟨Nat.le_succ_of_le h.start_le, hlt⟩

theorem InText.passWhile (h : InText chars s) (p : Char → Bool) (hp : p '\x00' = false) :
    InText chars (passWhile chars p hp s) := by
  fun_induction Scanner.passWhile chars p hp s with
  | case1 s hs ih => exact ih (h.advance (lt_size_of_seen chars hp hs))
  | case2 s hs => exact h

theorem InText.passString (h : InText chars s) : InText chars (passString chars s) := by
  fun_induction Scanner.passString chars s with
  | case1 s hs ih => exact ih ⟨Nat.le_succ_of_le h.start_le, hs.1⟩
  | case2 s hs => exact h

theorem passString_start (s : Scanner) : (passString chars s).start = s.start := by
  fun_induction Scanner.passString chars s with
  | case1 s hs ih => exact ih
  | case2 s hs => rfl

theorem lexeme?_eq (h : InText chars s) : lexeme? chars s = some (lexeme chars s) :=
  if_pos ⟨h.start_le, h.current_le⟩

theorem emit?_eq (h : InText chars s) (kind : TokenKind) (literal : Option Literal) :
    emit? chars kind literal s = some (emit chars kind literal s) := by
  rw [emit?, lexeme?_eq h]
  rfl

theorem lt_size_of_seen_eq {c : Char} (h : seen chars s = c) (hc : c ≠ '\x00') :
    s.current < chars.size :=
  lt_size_of_seen chars (p := (· == c)) (by simpa using hc.symm) (by simpa using h)

theorem lt_size_of_isFollowedBy {expected : Char} (h : isFollowedBy chars expected s) :
    s.current < chars.size := by
  rw [isFollowedBy, decide_eq_true_eq] at h
  exact (Array.getElem?_eq_some_iff.mp h).1

/-! ## Lexemes -/

/-- Behind the opening quote, so that there is room for it before the closing one. -/
theorem string?_eq (h : InText chars s) (hlt : s.start < s.current) :
    string? chars s = some (string chars s) := by
  have hpassed := h.passString
  have hle : s.current ≤ (passString chars s).current := current_le_passString s
  rw [string?, passString?_eq, string]
  by_cases hend : isAtEnd chars (passString chars s)
  · simp [hend]
  · have hsize : (passString chars s).current < chars.size := by simpa [isAtEnd] using hend
    have hstart : (passString chars s).advance.start = s.start := passString_start s
    have hslice : slice? chars ((passString chars s).advance.start + 1)
        ((passString chars s).advance.current - 1) = some _ :=
      if_pos ⟨by rw [hstart, advance_current]; omega, by rw [advance_current]; omega⟩
    simp only [hend, hslice, emit?_eq (hpassed.advance hsize), Option.bind_eq_bind,
      Option.bind_some]
    rfl

theorem passFraction?_eq (whole : Scanner) : passFraction? chars whole =
    some (if seen chars whole = '.' ∧ (seenNext chars whole).isDigit then
      passDigits chars whole.advance else whole) := by
  rw [passFraction?, seen?_eq, seenNext?_eq]
  by_cases hdot : seen chars whole = '.' <;> by_cases hdigit : (seenNext chars whole).isDigit <;>
    simp [hdot, hdigit, passDigits?, passWhile?_eq, passDigits]

theorem number?_eq (h : InText chars s) : number? chars s = some (number chars s) := by
  have hwhole : InText chars (passDigits chars s) := h.passWhile _ _
  have hdigits : passDigits? chars s = some (passDigits chars s) := passWhile?_eq _ _ s
  have hpassed : InText chars (if seen chars (passDigits chars s) = '.' ∧
      (seenNext chars (passDigits chars s)).isDigit then
        passDigits chars (passDigits chars s).advance else passDigits chars s) := by
    split
    · next hfraction =>
      have hlt := lt_size_of_seen_eq hfraction.1 (by decide)
      exact (hwhole.advance hlt).passWhile _ _
    · exact hwhole
  simp [number?, hdigits, passFraction?_eq, lexeme?_eq hpassed, emit?_eq hpassed, number]

theorem word?_eq (h : InText chars s) : word? chars s = some (word chars s) := by
  have hpassed : InText chars (passWhile chars isWordChar (by decide) s) := h.passWhile _ _
  simp [word?, passWhile?_eq, lexeme?_eq hpassed, emit?_eq hpassed, word]

theorem scanLexeme?_eq (hstart : s.start = s.current) (hlt : s.current < chars.size) :
    scanLexeme? chars s = some (scanLexeme chars s) := by
  have h : InText chars s.advance := ⟨by simp [Scanner.advance, hstart], hlt⟩
  have hnext {expected : Char} (hf : isFollowedBy chars expected s.advance) :
      InText chars s.advance.advance := h.advance (lt_size_of_isFollowedBy hf)
  unfold scanLexeme? scanLexeme
  simp only [seen?_eq, isFollowedBy?_eq, Option.bind_eq_bind, Option.bind_some]
  cases plainMark? (seen chars s) with
  | some kind => exact emit?_eq h _ _
  | none =>
  cases equalsMark? (seen chars s) with
  | some kinds =>
    dsimp only
    split
    · next hf => exact emit?_eq (hnext hf) _ _
    · exact emit?_eq h _ _
  | none =>
  dsimp only
  split
  · split
    · exact passComment?_eq _
    · exact emit?_eq h _ _
  split
  · rfl
  split
  · rfl
  split
  · exact string?_eq h (by simp [Scanner.advance, hstart])
  split
  · exact number?_eq h
  split
  · exact word?_eq h
  · rfl

/-! ## The whole text -/

def scanAll? (chars : Array Char) (s : Scanner) : Option Scanner :=
  if s.current < chars.size then
    match _ : scanLexeme? chars { s with start := s.current } with
    | none => none
    | some s' => scanAll? chars s'
  else some s
termination_by chars.size - s.current
decreasing_by
  have h := ‹scanLexeme? chars _ = some _›
  rw [scanLexeme?_eq (s := { s with start := s.current }) rfl ‹_›] at h
  cases h
  have := @current_lt_scanLexeme chars { s with start := s.current }
  dsimp only at this
  omega

theorem scanAll?_eq (s : Scanner) : scanAll? chars s = some (scanAll chars s) := by
  fun_induction scanAll chars s with
  | case1 s hlt ih =>
    rw [scanAll?, if_pos hlt]
    split
    · next h => simp [scanLexeme?_eq (s := { s with start := s.current }) rfl hlt] at h
    · next h =>
      rw [scanLexeme?_eq (s := { s with start := s.current }) rfl hlt] at h
      cases h
      exact ih
  | case2 s hlt => rw [scanAll?, if_neg hlt]

end Scanner

def scan? (source : String) : Option Scan := do
  let s ← Scanner.scanAll? source.toList.toArray .initial
  return ⟨s.tokens.toList ++ [Token.endMarker s.line], s.errors.toList⟩

/-- No index and no slice of a scan is out of range. -/
theorem scan?_eq (source : String) : scan? source = some (scan source) := by
  rw [scan?, Scanner.scanAll?_eq]
  rfl

end Lox
