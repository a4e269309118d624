import Lox.Token.Basic

/-!
The errors of a source text and of its evaluation. An error is a cause and a place; its wording is
made from them when it is shown. A cause may also be stated in words by whoever reports the error.
-/

namespace Lox

/-! ## Before evaluation -/

inductive LexicalError.Cause
  | invalidCharacter (c : Char)
  | unterminatedString
  | stated (message : String)
deriving DecidableEq, Repr, Inhabited

structure LexicalError where
  line : Nat
  cause : LexicalError.Cause
deriving DecidableEq, Repr, Inhabited

namespace LexicalError

def message (e : LexicalError) : String :=
  match e.cause with
  | .invalidCharacter c => "Invalid character '" ++ String.singleton c ++ "'."
  | .unterminatedString => "Unterminated string."
  | .stated message => message

def text (e : LexicalError) : String :=
  "[line " ++ toString e.line ++ "] Error: " ++ e.message

end LexicalError

inductive ParseError.Cause
  | expectExpression
  | expectClosingParen
  | expectEnd
  | nestsTooDeeply
  | stated (message : String)
deriving DecidableEq, Repr, Inhabited

/-- Where in the token stream an error was found. -/
inductive ParseError.Place
  | atEnd
  | atLexeme (lexeme : String)
deriving DecidableEq, Repr, Inhabited

structure ParseError where
  line : Nat
  place : ParseError.Place
  cause : ParseError.Cause
deriving DecidableEq, Repr, Inhabited

namespace ParseError

/-- The error with this cause at this token. -/
def atToken (t : Token) (cause : Cause) : ParseError :=
  ⟨t.line, if t.kind = .endOfInput then .atEnd else .atLexeme t.lexeme, cause⟩

def message (e : ParseError) : String :=
  match e.cause with
  | .expectExpression => "Expect expression."
  | .expectClosingParen => "Expect ')' after expression."
  | .expectEnd => "Expect end of expression."
  | .nestsTooDeeply => "Expression nests too deeply."
  | .stated message => message

def text (e : ParseError) : String :=
  let place := match e.place with
    | .atEnd => " at end: "
    | .atLexeme lexeme => " at '" ++ lexeme ++ "': "
  "[line " ++ toString e.line ++ "] Error" ++ place ++ e.message

end ParseError

inductive SyntaxError
  | lexical (error : LexicalError)
  | parse (error : ParseError)
deriving DecidableEq, Repr, Inhabited

namespace SyntaxError

def line : SyntaxError → Nat
  | lexical e => e.line
  | parse e => e.line

def message : SyntaxError → String
  | lexical e => e.message
  | parse e => e.message

def text : SyntaxError → String
  | lexical e => e.text
  | parse e => e.text

end SyntaxError

/-! ## During evaluation -/

inductive RuntimeError.Cause
  | operandNotNumber
  | operandsNotNumbers
  | operandsNotAlike
  | stated (message : String)
deriving DecidableEq, Repr, Inhabited

/-- A runtime error stands at the operator that cannot be applied. -/
structure RuntimeError where
  line : Nat
  lexeme : String
  cause : RuntimeError.Cause
deriving DecidableEq, Repr, Inhabited

namespace RuntimeError

def atToken (t : Token) (cause : Cause) : RuntimeError :=
  ⟨t.line, t.lexeme, cause⟩

def message (e : RuntimeError) : String :=
  match e.cause with
  | .operandNotNumber => "Operand must be a number."
  | .operandsNotNumbers => "Operands must be numbers."
  | .operandsNotAlike => "Operands must be 2 numbers or strings."
  | .stated message => message

def text (e : RuntimeError) : String :=
  "[line " ++ toString e.line ++ "] Error at '" ++ e.lexeme ++ "': " ++ e.message

end RuntimeError

end Lox
