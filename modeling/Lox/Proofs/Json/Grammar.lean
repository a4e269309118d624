import Lox.Json.Skipping

/-!
The grammar of JSON, told without a reader: gaps, strings, numbers and values as forms of texts. A
string is written in pieces, and its pieces denote characters unless half of a surrogate pair stands
alone among them (`Piece.decode`). Values may be nested to any depth; the values inside a bracket
are a part of their own, so that one induction covers the whole grammar (`WellFormed`).
-/

namespace Lox.Json

/-- Blanks between the parts of a text. -/
def IsGap (text : List Char) : Prop :=
  ∀ c ∈ text, c ∈ [' ', '\t', '\n', '\r']

instance (text : List Char) : Decidable (IsGap text) :=
  List.decidableBAll _ text

/-! ## Strings -/

/-- What a string is written in: characters, plain or with an escape of their own, and code units of
16 bits. -/
inductive Piece
  | character (c : Char)
  | unit (n : Nat)
deriving DecidableEq, Repr, Inhabited

/-- The letters behind a backslash and what they stand for. -/
def escapes : List (Char × Char) :=
  [('"', '"'), ('\\', '\\'), ('/', '/'), ('b', '\x08'), ('f', '\x0c'), ('n', '\n'), ('r', '\r'),
    ('t', '\t')]

def hexDigits : List (Char × Nat) :=
  "0123456789abcdef".toList.zipIdx ++ "ABCDEF".toList.zipIdx 10

/-- Four hexadecimal digits and the number that they denote. -/
inductive Quad : List Char → Nat → Prop
  | digits {a b c d : Char × Nat} (ha : a ∈ hexDigits) (hb : b ∈ hexDigits) (hc : c ∈ hexDigits)
    (hd : d ∈ hexDigits) :
    Quad [a.1, b.1, c.1, d.1] (16 * (16 * (16 * a.2 + b.2) + c.2) + d.2)

/-- The text of a string between its quotes, and its pieces. -/
inductive StringText : List Char → List Piece → Prop
  | nil : StringText [] []
  | plain {c : Char} {text : List Char} {pieces : List Piece} (hquote : c ≠ '"')
    (hbackslash : c ≠ '\\') (hcontrol : 0x20 ≤ c.toNat) (h : StringText text pieces) :
    StringText (c :: text) (.character c :: pieces)
  | escape {letter c : Char} {text : List Char} {pieces : List Piece}
    (hc : (letter, c) ∈ escapes) (h : StringText text pieces) :
    StringText ('\\' :: letter :: text) (.character c :: pieces)
  | unit {quad text : List Char} {n : Nat} {pieces : List Piece} (hquad : Quad quad n)
    (h : StringText text pieces) :
    StringText ('\\' :: 'u' :: (quad ++ text)) (.unit n :: pieces)

/-- The characters that the pieces denote. Code units from D800 on are halves of a pair, the ones
below DC00 first halves; a half that stands alone denotes nothing. -/
def Piece.decode : List Piece → Option (List Char)
  | [] => some []
  | .character c :: pieces => (decode pieces).map (c :: ·)
  | .unit n :: pieces =>
    if n < 0xD800 ∨ 0xDFFF < n then (decode pieces).map (Char.ofNat n :: ·)
    else match pieces with
      | .unit m :: pieces =>
        if n < 0xDC00 ∧ 0xDC00 ≤ m ∧ m ≤ 0xDFFF then
          (decode pieces).map
            (Char.ofNat (0x10000 + (n - 0xD800) * 0x400 + (m - 0xDC00)) :: ·)
        else none
      | _ => none

/-- The text between the quotes is a way to write the string. -/
def Denotes (text : List Char) (s : String) : Prop :=
  ∃ pieces, StringText text pieces ∧ Piece.decode pieces = some s.toList

/-! ## Numbers -/

/-- Zero, or digits of which the first is not zero. -/
inductive Whole : List Char → Prop
  | zero : Whole ['0']
  | digits {d : Char} {ds : List Char} (hne : d ≠ '0') (h : ∀ c ∈ d :: ds, c.isDigit) :
    Whole (d :: ds)

theorem Whole.isDigit {whole : List Char} (h : Whole whole) : ∀ c ∈ whole, c.isDigit := by
  cases h with
  | zero =>
    intro c hc
    rw [List.mem_singleton.mp hc]
    rfl
  | digits hne h => exact h

inductive Fraction : List Char → Prop
  | none : Fraction []
  | some {ds : List Char} (hne : ds ≠ []) (h : ∀ c ∈ ds, c.isDigit) : Fraction ('.' :: ds)

inductive Exponent : List Char → Prop
  | none : Exponent []
  | some {mark : Char} {sign ds : List Char} (hmark : mark = 'e' ∨ mark = 'E')
    (hsign : sign = [] ∨ sign = ['+'] ∨ sign = ['-']) (hne : ds ≠ []) (h : ∀ c ∈ ds, c.isDigit) :
    Exponent (mark :: (sign ++ ds))

/-- A number without its sign. -/
inductive Numeral : List Char → Prop
  | parts {whole fraction exponent : List Char} (hwhole : Whole whole)
    (hfraction : Fraction fraction) (hexponent : Exponent exponent) :
    Numeral (whole ++ (fraction ++ exponent))

theorem Whole.numeral {whole : List Char} (h : Whole whole) : Numeral whole := by
  have hnumeral := Numeral.parts h .none .none
  rwa [List.append_nil, List.append_nil] at hnumeral

/-! ## Values -/

def Bracket.opening : Bracket → Char
  | list => '['
  | object => '\x7b'

/-- The key of a member and the colon behind it, with what is between the quotes of the key. -/
inductive KeyText : List Char → List Char → Prop
  | key {text gap : List Char} (hgap : IsGap gap) :
    KeyText ('"' :: (text ++ '"' :: (gap ++ [':']))) text

/-- What stands before a value in a list and in an object. -/
inductive Lead : Bracket → List Char → Prop
  | list : Lead .list []
  | object {key text gap : List Char} {pieces : List Piece} (hkey : KeyText key text)
    (htext : StringText text pieces) (hgap : IsGap gap) : Lead .object (key ++ gap)

/-- A value, or the values of a bracket with what stands before them, up to the end of the
bracket. -/
inductive Part
  | value
  | items (bracket : Bracket)
deriving DecidableEq, Repr, Inhabited

/-- The texts of values, and of the values of a bracket. Gaps belong to what is around them. -/
inductive WellFormed : Part → List Char → Prop
  | word {w : String} (hw : w ∈ ["null", "true", "false"]) : WellFormed .value w.toList
  | number {text : List Char} (h : Numeral text) : WellFormed .value text
  | negative {text : List Char} (h : Numeral text) : WellFormed .value ('-' :: text)
  | string {text : List Char} {pieces : List Piece} (h : StringText text pieces) :
    WellFormed .value ('"' :: (text ++ ['"']))
  | empty (bracket : Bracket) {gap : List Char} (hgap : IsGap gap) :
    WellFormed .value (bracket.opening :: (gap ++ [bracket.closing]))
  | filled {bracket : Bracket} {gap items : List Char} (hgap : IsGap gap)
    (hitems : WellFormed (.items bracket) items) :
    WellFormed .value (bracket.opening :: (gap ++ items))
  | last {bracket : Bracket} {lead value gap : List Char} (hlead : Lead bracket lead)
    (hvalue : WellFormed .value value) (hgap : IsGap gap) :
    WellFormed (.items bracket) (lead ++ (value ++ (gap ++ [bracket.closing])))
  | more {bracket : Bracket} {lead value gap gap' items : List Char} (hlead : Lead bracket lead)
    (hvalue : WellFormed .value value) (hgap : IsGap gap) (hgap' : IsGap gap')
    (hitems : WellFormed (.items bracket) items) :
    WellFormed (.items bracket) (lead ++ (value ++ (gap ++ ',' :: (gap' ++ items))))

/-! ## Objects -/

/-- A member of an object: its key, and the text of its value. -/
structure Member where
  key : String
  value : List Char
deriving DecidableEq, Repr, Inhabited

/-- The text of members with the bracket that closes the object. -/
inductive MembersText : List Char → List Member → Prop
  | last {lead text gap gap' : List Char} {m : Member} (hlead : KeyText lead text)
    (hkey : Denotes text m.key) (hgap : IsGap gap) (hvalue : WellFormed .value m.value)
    (hgap' : IsGap gap') :
    MembersText (lead ++ (gap ++ (m.value ++ (gap' ++ ['\x7d'])))) [m]
  | more {lead text gap gap' gap'' rest : List Char} {m : Member} {members : List Member}
    (hlead : KeyText lead text) (hkey : Denotes text m.key) (hgap : IsGap gap)
    (hvalue : WellFormed .value m.value) (hgap' : IsGap gap') (hgap'' : IsGap gap'')
    (hrest : MembersText rest members) :
    MembersText (lead ++ (gap ++ (m.value ++ (gap' ++ ',' :: (gap'' ++ rest))))) (m :: members)

/-- The text of an object, and its members in order. -/
inductive ObjectText : List Char → List Member → Prop
  | empty {gap gap' gap'' : List Char} (hgap : IsGap gap) (hgap' : IsGap gap')
    (hgap'' : IsGap gap'') :
    ObjectText (gap ++ '\x7b' :: (gap' ++ '\x7d' :: gap'')) []
  | filled {gap gap' gap'' text : List Char} {members : List Member} (hgap : IsGap gap)
    (hgap' : IsGap gap') (htext : MembersText text members) (hgap'' : IsGap gap'') :
    ObjectText (gap ++ '\x7b' :: (gap' ++ (text ++ gap''))) members

end Lox.Json
