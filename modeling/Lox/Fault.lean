import Lox.Decimal.Layout
import Lox.Text.Quoted
import Lox.Token.Dump

/-!
Faults: what can go wrong only with tokens or trees that were made by hand. No source text leads to
one. A computation that can halt either with an error of the program or with a fault has the error
type `Halt`.
-/

namespace Lox

inductive Fault
  /-- A leaf whose token stands for no value. -/
  | leaf (kind : TokenKind)
  /-- A leaf whose token stands for no value, with the payload it carries. -/
  | leafPayload (kind : TokenKind) (literal : Option Literal)
  | unaryOperator (kind : TokenKind)
  | binaryOperator (kind : TokenKind)
  /-- A token was to be taken beyond the end of the stream. -/
  | outOfRange (size index : Nat)
deriving BEq, Inhabited

namespace Fault

/-- A payload, spelled out as data. -/
def payload : Option Literal → String
  | none => "None"
  | some (.number x) => "Some(Number(" ++ Token.decimals.text x ++ "))"
  | some (.string s) => "Some(String(" ++ Text.quoted s ++ "))"

private def broken (text : String) : String :=
  "internal error: entered unreachable code: " ++ text

def message : Fault → String
  | leaf kind => broken ("literal node holds a " ++ kind.name ++ " token")
  | leafPayload kind literal =>
    broken ("literal node holds a " ++ kind.name ++ " token with payload " ++ payload literal)
  | unaryOperator kind => broken ("unary node holds a " ++ kind.name ++ " operator")
  | binaryOperator kind => broken ("binary node holds a " ++ kind.name ++ " operator")
  | outOfRange size index =>
    "index out of bounds: the len is " ++ toString size ++ " but the index is " ++ toString index

end Fault

/-- Why a computation halts without a result. -/
inductive Halt (ε : Type)
  | error (e : ε)
  | fault (f : Fault)
deriving BEq, Inhabited

end Lox
