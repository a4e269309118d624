import Lox.Json.Flaw

/-!
Reading the scalars of JSON from the front of a text: words, strings and numbers.
-/

namespace Lox.Json

abbrev Reader := StateT (List Char) (Except Flaw)

namespace Reader

/-! ## Steps over the text -/

/-- Fails at the current place, with so many bytes looked at. -/
def fail {α : Type} (cause : Cause) (ahead : Nat) : Reader α := fun text =>
  .error ⟨cause, text, ahead⟩

/-- JSON has four blanks. -/
def isBlank (c : Char) : Bool :=
  c = ' ' || c = '\t' || c = '\n' || c = '\r'

def peek : Reader (Option Char) := fun text =>
  .ok (text.head?, text)

def skip : Reader Unit := fun text =>
  .ok ((), text.tail)

/-- The first character that is not blank, which stays unread. -/
def peekAfterBlanks : Reader (Option Char) := fun text =>
  let text := text.dropWhile isBlank
  .ok (text.head?, text)

/-- Reads the given letters. -/
def letters : List Char → Reader Unit
  | [] => pure ()
  | expected :: more => do
    match ← peek with
    | none => fail .endInValue 0
    | some c => if c = expected then skip; letters more else fail .expectedWord 1

/-! ## Strings -/

def hexDigit? (c : Char) : Option Nat :=
  if c.isDigit then some (c.toNat - '0'.toNat)
  else if 'a' ≤ c ∧ c ≤ 'f' then some (c.toNat - 'a'.toNat + 10)
  else if 'A' ≤ c ∧ c ≤ 'F' then some (c.toNat - 'A'.toNat + 10)
  else none

/-- The number that four hexadecimal digits denote. Four bytes are looked at, whatever they are. -/
def hexQuad (text : List Char) : Except Flaw (Nat × List Char) :=
  let value := (text.take 4).foldl
    (fun n? c => do return 16 * (← n?) + (← hexDigit? c)) (some 0)
  match value with
  | some n => if text.length < 4 then .error ⟨.endInString, [], 0⟩ else .ok (n, text.drop 4)
  | none =>
    if byteCount (text.take 4) < 4 then .error ⟨.endInString, [], 0⟩
    else .error ⟨.invalidEscape, text, 4⟩

/-- The escapes of one letter. -/
def plainEscape? : Char → Option Char
  | '"' => some '"'
  | '\\' => some '\\'
  | '/' => some '/'
  | 'b' => some '\x08'
  | 'f' => some '\x0c'
  | 'n' => some '\n'
  | 'r' => some '\r'
  | 't' => some '\t'
  | _ => none

def isHighSurrogate (n : Nat) : Bool :=
  0xD800 ≤ n && n ≤ 0xDBFF

def isLowSurrogate (n : Nat) : Bool :=
  0xDC00 ≤ n && n ≤ 0xDFFF

/-- The second half of a pair, after the first one. -/
def lowHalf (high : Nat) (text : List Char) : Except Flaw (Char × List Char) :=
  match text with
  | [] | ['\\'] => .error ⟨.endInString, [], 0⟩
  | '\\' :: 'u' :: rest => do
    let (low, rest) ← hexQuad rest
    if isLowSurrogate low then
      return (Char.ofNat (0x10000 + (high - 0xD800) * 0x400 + (low - 0xDC00)), rest)
    else
      .error ⟨.loneSurrogate, rest, 0⟩
  | '\\' :: rest => .error ⟨.brokenPair, rest, 1⟩
  | _ => .error ⟨.brokenPair, text, 1⟩

/-- The character that an escape denotes, after the backslash. -/
def escaped (text : List Char) : Except Flaw (Char × List Char) :=
  match text with
  | [] => .error ⟨.endInString, [], 0⟩
  | 'u' :: rest => do
    let (n, rest) ← hexQuad rest
    if isLowSurrogate n then .error ⟨.loneSurrogate, rest, 0⟩
    else if isHighSurrogate n then lowHalf n rest
    else return (Char.ofNat n, rest)
  | c :: rest => match plainEscape? c with
    | some d => .ok (d, rest)
    | none => .error ⟨.invalidEscape, text, 1⟩

/-- What an escape leaves when its meaning does not matter: any four digits will do. -/
def afterEscape (text : List Char) : Except Flaw (List Char) :=
  match text with
  | [] => .error ⟨.endInString, [], 0⟩
  | 'u' :: rest => (hexQuad rest).map Prod.snd
  | c :: rest => match plainEscape? c with
    | some _ => .ok rest
    | none => .error ⟨.invalidEscape, text, 1⟩

theorem length_of_hexQuad {text : List Char} {r : Nat × List Char} (h : hexQuad text = .ok r) :
    r.2.length ≤ text.length := by
  simp only [hexQuad] at h
  split at h
  · split at h
    · contradiction
    · simp only [Except.ok.injEq] at h
      simp [← h]
  · split at h <;> contradiction

theorem length_of_lowHalf {high : Nat} {text rest : List Char} {c : Char}
    (h : lowHalf high text = .ok (c, rest)) : rest.length ≤ text.length := by
  unfold lowHalf at h
  split at h
  · contradiction
  · contradiction
  · next more =>
    simp only [bind, Except.bind] at h
    split at h
    · contradiction
    · next r hr =>
      split at h
      · simp only [pure, Except.pure, Except.ok.injEq, Prod.mk.injEq] at h
        have := length_of_hexQuad hr
        simp only [List.length_cons, ← h.2]
        omega
      · contradiction
  · contradiction
  · contradiction

theorem length_of_escaped {text rest : List Char} {c : Char} (h : escaped text = .ok (c, rest)) :
    rest.length ≤ text.length := by
  unfold escaped at h
  split at h
  · contradiction
  · next more =>
    simp only [bind, Except.bind] at h
    split at h
    · contradiction
    · next r hr =>
      have hq := length_of_hexQuad hr
      split at h
      · contradiction
      · split at h
        · have := length_of_lowHalf h
          simp only [List.length_cons]
          omega
        · simp only [pure, Except.pure, Except.ok.injEq, Prod.mk.injEq] at h
          simp only [List.length_cons, ← h.2]
          omega
  · split at h
    · simp only [Except.ok.injEq, Prod.mk.injEq] at h
      simp [← h.2]
    · contradiction

theorem length_of_afterEscape {text rest : List Char} (h : afterEscape text = .ok rest) :
    rest.length ≤ text.length := by
  unfold afterEscape at h
  split at h
  · contradiction
  · next more =>
    cases hq : hexQuad more with
    | error e => simp [hq, Except.map] at h
    | ok r =>
      simp only [hq, Except.map, Except.ok.injEq] at h
      have := length_of_hexQuad hq
      simp only [List.length_cons, ← h]
      omega
  · split at h
    · simp only [Except.ok.injEq] at h
      simp [← h]
    · contradiction

/-- Reads a string to its closing quote; `done` are the characters so far, the last one first. -/
def stringBody (done : List Char) : List Char → Except Flaw (String × List Char)
  | [] => .error ⟨.endInString, [], 0⟩
  | c :: rest =>
    if c = '"' then .ok (String.ofList done.reverse, rest)
    else if c = '\\' then
      match _h : escaped rest with
      | .error e => .error e
      | .ok (d, rest) => stringBody (d :: done) rest
    else if c.toNat < 0x20 then .error ⟨.controlCharacter, c :: rest, 1⟩
    else stringBody (c :: done) rest
termination_by text => text.length
decreasing_by
  · have := length_of_escaped _h
    simp only [List.length_cons]
    omega
  · simp

/-- Passes a string to its closing quote. A control character is not looked at beyond its place. -/
def passString : List Char → Except Flaw (List Char)
  | [] => .error ⟨.endInString, [], 0⟩
  | c :: rest =>
    if c = '"' then .ok rest
    else if c = '\\' then
      match _h : afterEscape rest with
      | .error e => .error e
      | .ok rest => passString rest
    else if c.toNat < 0x20 then .error ⟨.controlCharacter, c :: rest, 0⟩
    else passString rest
termination_by text => text.length
decreasing_by
  · have := length_of_afterEscape _h
    simp only [List.length_cons]
    omega
  · simp

/-- A string, after its opening quote. -/
def string : Reader String :=
  stringBody []

/-- Passes a string, after its opening quote. -/
def skipString : Reader Unit := fun text =>
  (passString text).map ((), ·)

end Reader

end Lox.Json
