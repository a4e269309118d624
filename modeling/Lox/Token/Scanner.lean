import Lox.Decimal.Reading
import Lox.Diagnostics.Error

/-!
From source text to tokens. The scanner passes the characters of a text one by one, a lexeme at a
time, and gathers tokens and lexical errors on its way. Behind the last character it sees the null
character, at which every run of digits or letters ends.
-/

namespace Lox

/-- How far a scan has come and what it has found. -/
structure Scanner where
  line : Nat
  /-- Where the lexeme at hand starts. -/
  start : Nat
  /-- How many characters have been passed. -/
  current : Nat
  tokens : Array Token
  errors : Array LexicalError
deriving Inhabited

namespace Scanner

/-! ## Classes of characters -/

/-- ASCII letters and the underscore. -/
def isLetter (c : Char) : Bool :=
  c.isAlpha || c = '_'

def isWordChar (c : Char) : Bool :=
  isLetter c || c.isDigit

/-- The marks that no longer mark begins with. -/
def plainMark? : Char → Option TokenKind
  | '(' => some .leftParen
  | ')' => some .rightParen
  | '{' => some .leftBrace
  | '}' => some .rightBrace
  | ',' => some .comma
  | '.' => some .dot
  | '-' => some .minus
  | '+' => some .plus
  | ';' => some .semicolon
  | '*' => some .star
  | _ => none

/-- The marks that a following equals sign lengthens: alone, and with it. -/
def equalsMark? : Char → Option (TokenKind × TokenKind)
  | '!' => some (.bang, .bangEqual)
  | '=' => some (.equal, .equalEqual)
  | '<' => some (.less, .lessEqual)
  | '>' => some (.greater, .greaterEqual)
  | _ => none

/-! ## Moving over the text -/

section
variable (chars : Array Char)

def isAtEnd (s : Scanner) : Bool :=
  chars.size ≤ s.current

/-- The character ahead. -/
def seen (s : Scanner) : Char :=
  chars.getD s.current '\x00'

/-- The character behind the one ahead. -/
def seenNext (s : Scanner) : Char :=
  chars.getD (s.current + 1) '\x00'

def isFollowedBy (expected : Char) (s : Scanner) : Bool :=
  chars[s.current]? = some expected

/-- Passes the character ahead, whatever it is. -/
def advance (s : Scanner) : Scanner :=
  { s with current := s.current + 1 }

theorem lt_size_of_seen {p : Char → Bool} (hp : p '\x00' = false) {s : Scanner}
    (h : p (seen chars s) = true) : s.current < chars.size := by
  by_cases hs : s.current < chars.size
  · exact hs
  · simp [seen, hs, hp] at h

/-- Passes characters as long as they satisfy `p`. -/
def passWhile (p : Char → Bool) (hp : p '\x00' = false) (s : Scanner) : Scanner :=
  if p (seen chars s) then passWhile p hp s.advance else s
termination_by chars.size - s.current
decreasing_by
  have := lt_size_of_seen chars hp ‹p (seen chars s)›
  simp only [advance]
  omega

/-- Passes the rest of the line. -/
def passComment (s : Scanner) : Scanner :=
  if s.current < chars.size ∧ seen chars s ≠ '\n' then passComment s.advance else s
termination_by chars.size - s.current
decreasing_by
  simp only [advance]
  omega

/-- Passes characters up to the next quote, and counts the lines among them. -/
def passString (s : Scanner) : Scanner :=
  if s.current < chars.size ∧ seen chars s ≠ '"' then
    passString
      { s.advance with line := if seen chars s = '\n' then s.line + 1 else s.line }
  else s
termination_by chars.size - s.current
decreasing_by
  simp only [advance]
  omega

/-! ## Lexemes -/

/-- The characters passed since the start of the lexeme. -/
def lexeme (s : Scanner) : List Char :=
  (chars.extract s.start s.current).toList

/-- Takes the lexeme as a token. -/
def emit (kind : TokenKind) (literal : Option Literal) (s : Scanner) : Scanner :=
  { s with
    tokens := s.tokens.push ⟨s.line, kind, String.ofList (lexeme chars s), literal⟩ }

def report (line : Nat) (cause : LexicalError.Cause) (s : Scanner) : Scanner :=
  { s with errors := s.errors.push ⟨line, cause⟩ }

/-- The rest of a string behind its opening quote. -/
def string (s : Scanner) : Scanner :=
  let passed := passString chars s
  if isAtEnd chars passed then report s.line .unterminatedString passed
  else
    let closed := passed.advance
    let inside := (chars.extract (closed.start + 1) (closed.current - 1)).toList
    emit chars .string (some (.string (String.ofList inside))) closed

def passDigits (s : Scanner) : Scanner :=
  passWhile chars Char.isDigit (by decide) s

/-- The rest of a number behind its first digit. A fraction has at least one digit. -/
def number (s : Scanner) : Scanner :=
  let whole := passDigits chars s
  let passed :=
    if seen chars whole = '.' ∧ (seenNext chars whole).isDigit then passDigits chars whole.advance
    else whole
  let value := (Decimal.ofText? (lexeme chars passed)).getD Decimal.notANumber
  emit chars .number (some (.number value)) passed

/-- The rest of a word behind its first letter. -/
def word (s : Scanner) : Scanner :=
  let passed := passWhile chars isWordChar (by decide) s
  emit chars (.ofWord (String.ofList (lexeme chars passed))) none passed

/-- Passes one lexeme, layout character or comment. -/
def scanLexeme (s : Scanner) : Scanner :=
  let c := seen chars s
  let passed := s.advance
  match plainMark? c with
  | some kind => emit chars kind none passed
  | none => match equalsMark? c with
    | some (alone, withEquals) =>
      if isFollowedBy chars '=' passed then emit chars withEquals none passed.advance
      else emit chars alone none passed
    | none =>
      if c = '/' then
        if isFollowedBy chars '/' passed then passComment chars passed.advance
        else emit chars .slash none passed
      else if c = ' ' ∨ c = '\r' ∨ c = '\t' then passed
      else if c = '\n' then { passed with line := passed.line + 1 }
      else if c = '"' then string chars passed
      else if c.isDigit then number chars passed
      else if isLetter c then word chars passed
      else report passed.line (.invalidCharacter c) passed

/-! ## The whole text

A step passes at least the character it starts with, so the scan comes to the end of the text.
-/

section
variable {chars} (s : Scanner)

@[simp] theorem advance_current : s.advance.current = s.current + 1 := rfl

@[simp] theorem emit_current (kind : TokenKind) (literal : Option Literal) :
    (emit chars kind literal s).current = s.current := rfl

@[simp] theorem report_current (line : Nat) (cause : LexicalError.Cause) :
    (report line cause s).current = s.current := rfl

theorem current_le_passWhile (p : Char → Bool) (hp : p '\x00' = false) :
    s.current ≤ (passWhile chars p hp s).current := by
  fun_induction passWhile chars p hp s with
  | case1 s h ih => exact Nat.le_of_succ_le ih
  | case2 s h => exact Nat.le_refl _

theorem current_le_passComment : s.current ≤ (passComment chars s).current := by
  fun_induction passComment chars s with
  | case1 s h ih => exact Nat.le_of_succ_le ih
  | case2 s h => exact Nat.le_refl _

theorem current_le_passString : s.current ≤ (passString chars s).current := by
  fun_induction passString chars s with
  | case1 s h ih => exact Nat.le_of_succ_le ih
  | case2 s h => exact Nat.le_refl _

theorem current_le_string : s.current ≤ (string chars s).current := by
  have := @current_le_passString chars s
  unfold string
  dsimp only
  split
  · simpa using this
  · simp only [emit_current, advance_current]
    omega

theorem current_le_number : s.current ≤ (number chars s).current := by
  have h := @current_le_passWhile chars s Char.isDigit (by decide)
  unfold number
  dsimp only
  split
  · refine Nat.le_trans h ?_
    exact Nat.le_of_succ_le (current_le_passWhile (advance _) Char.isDigit (by decide))
  · exact h

theorem current_lt_scanLexeme : s.current < (scanLexeme chars s).current := by
  have h : s.current < s.advance.current := Nat.lt_succ_self _
  have h' : s.current < s.advance.advance.current := Nat.lt_succ_of_lt h
  unfold scanLexeme
  dsimp only
  split
  · exact h
  split
  · split
    · exact h'
    · exact h
  split
  · split
    · exact Nat.lt_of_lt_of_le h' (current_le_passComment _)
    · exact h
  split
  · exact h
  split
  · exact h
  split
  · exact Nat.lt_of_lt_of_le h (current_le_string _)
  split
  · exact Nat.lt_of_lt_of_le h (current_le_number _)
  split
  · exact Nat.lt_of_lt_of_le h (current_le_passWhile _ _ _)
  · exact h

end

def scanAll (s : Scanner) : Scanner :=
  if s.current < chars.size then scanAll (scanLexeme chars { s with start := s.current }) else s
termination_by chars.size - s.current
decreasing_by
  have := @current_lt_scanLexeme chars { s with start := s.current }
  dsimp only at this
  omega

end

def initial : Scanner :=
  ⟨1, 0, 0, #[], #[]⟩

end Scanner

/-- What a source text consists of. -/
structure Scan where
  tokens : List Token
  errors : List LexicalError
deriving BEq, Inhabited

def scan (source : String) : Scan :=
  let s := Scanner.scanAll source.toList.toArray .initial
  ⟨s.tokens.toList ++ [Token.endMarker s.line], s.errors.toList⟩

end Lox
