/-!
The vocabulary of the language: kinds of token, the reserved words among them, the payload that a
number or a string carries, and the token itself with the line it stands on.
-/

namespace Lox

/-- The reserved words. -/
inductive Keyword
  | andWord | classWord | elseWord | falseWord | forWord | funWord | ifWord | nilWord
  | orWord | printWord | returnWord | superWord | thisWord | trueWord | varWord | whileWord
deriving DecidableEq, Repr, Inhabited

namespace Keyword

def all : List Keyword :=
  [andWord, classWord, elseWord, falseWord, forWord, funWord, ifWord, nilWord,
    orWord, printWord, returnWord, superWord, thisWord, trueWord, varWord, whileWord]

/-- The spelling in a source text. -/
def text : Keyword → String
  | andWord => "and"
  | classWord => "class"
  | elseWord => "else"
  | falseWord => "false"
  | forWord => "for"
  | funWord => "fun"
  | ifWord => "if"
  | nilWord => "nil"
  | orWord => "or"
  | printWord => "print"
  | returnWord => "return"
  | superWord => "super"
  | thisWord => "this"
  | trueWord => "true"
  | varWord => "var"
  | whileWord => "while"

/-- The name of the word as a kind of token. -/
def name : Keyword → String
  | andWord => "AND"
  | classWord => "CLASS"
  | elseWord => "ELSE"
  | falseWord => "FALSE"
  | forWord => "FOR"
  | funWord => "FUN"
  | ifWord => "IF"
  | nilWord => "NIL"
  | orWord => "OR"
  | printWord => "PRINT"
  | returnWord => "RETURN"
  | superWord => "SUPER"
  | thisWord => "THIS"
  | trueWord => "TRUE"
  | varWord => "VAR"
  | whileWord => "WHILE"

/-- The reserved word with this spelling; case matters. -/
def ofText? (s : String) : Option Keyword :=
  all.find? fun w => w.text == s

theorem mem_all (w : Keyword) : w ∈ all := by
  cases w <;> decide

end Keyword

/-- The kinds of token: marks and operators, names and literals, reserved words, the end marker. -/
inductive TokenKind
  | leftParen | rightParen | leftBrace | rightBrace
  | comma | dot | minus | plus | semicolon | slash | star
  | bang | bangEqual | equal | equalEqual | greater | greaterEqual | less | lessEqual
  | identifier | string | number
  | keyword (word : Keyword)
  | endOfInput
deriving DecidableEq, Repr, Inhabited

namespace TokenKind

/-- The name under which a kind appears in dumps and reports. -/
def name : TokenKind → String
  | leftParen => "LEFT_PAREN"
  | rightParen => "RIGHT_PAREN"
  | leftBrace => "LEFT_BRACE"
  | rightBrace => "RIGHT_BRACE"
  | comma => "COMMA"
  | dot => "DOT"
  | minus => "MINUS"
  | plus => "PLUS"
  | semicolon => "SEMICOLON"
  | slash => "SLASH"
  | star => "STAR"
  | bang => "BANG"
  | bangEqual => "BANG_EQUAL"
  | equal => "EQUAL"
  | equalEqual => "EQUAL_EQUAL"
  | greater => "GREATER"
  | greaterEqual => "GREATER_EQUAL"
  | less => "LESS"
  | lessEqual => "LESS_EQUAL"
  | identifier => "IDENTIFIER"
  | string => "STRING"
  | number => "NUMBER"
  | keyword word => word.name
  | endOfInput => "END"

def all : List TokenKind :=
  [leftParen, rightParen, leftBrace, rightBrace, comma, dot, minus, plus, semicolon, slash, star,
    bang, bangEqual, equal, equalEqual, greater, greaterEqual, less, lessEqual,
    identifier, string, number] ++ Keyword.all.map keyword ++ [endOfInput]

def ofName? (s : String) : Option TokenKind :=
  all.find? fun k => k.name == s

/-- A word is a reserved word if it is spelled like one, and an identifier otherwise. -/
def ofWord (s : String) : TokenKind :=
  (Keyword.ofText? s).elim identifier keyword

theorem mem_all (k : TokenKind) : k ∈ all := by
  cases k with
  | keyword w => cases w <;> decide
  | _ => decide

end TokenKind

/-- The payload of a number or a string. -/
inductive Literal
  | number (x : Float)
  | string (s : String)
deriving BEq, Inhabited

/-- A token stands on the line on which its lexeme ends. -/
structure Token where
  line : Nat
  kind : TokenKind
  lexeme : String
  literal : Option Literal
deriving BEq, Inhabited

/-- The marker that closes every token stream. -/
def Token.endMarker (line : Nat) : Token :=
  ⟨line, .endOfInput, "", none⟩

end Lox
