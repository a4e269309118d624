import Lox.Expr.PrefixForm
import Lox.Json.Writing
import Lox.Run.Basic

/-!
The report on a run: what it produced and the errors on record. Where there are syntax errors
nothing else is shown.
-/

namespace Lox

def Literal.json : Literal → Json
  | number x => .float x
  | string s => .text s

def Token.json (t : Token) : Json :=
  .object [("line", .integer t.line), ("kind", .text t.kind.name), ("lexeme", .text t.lexeme),
    ("literal", .ofOption Literal.json t.literal)]

def Value.json : Value → Json
  | number x => .float x
  | string s => .text s
  | boolean b => .boolean b
  | nil => .null

structure Report where
  tokens : Option (List Token)
  ast : Option String
  value : Option Value
  syntaxErrors : List String
  runtimeErrors : List String
deriving BEq, Inhabited

namespace Report

/-- Reports on a run with all errors on record, and clears the record. -/
def ofRun (r : Run) (d : Diagnostics) : Except Fault (Report × Diagnostics) := do
  let (foundBefore, d) := d.drainSyntax
  let (foundDuring, d) := d.drainRuntime
  let syntaxErrors := foundBefore.map SyntaxError.text
  let runtimeErrors := foundDuring.map RuntimeError.text
  if syntaxErrors.isEmpty then
    let ast ← r.expr.mapM Expr.prefixForm
    return (⟨some r.tokens, ast, r.value, syntaxErrors, runtimeErrors⟩, d)
  else
    return (⟨none, none, none, syntaxErrors, runtimeErrors⟩, d)

def isSuccess (r : Report) : Bool :=
  r.syntaxErrors.isEmpty && r.runtimeErrors.isEmpty

def json (r : Report) : Json :=
  .object [
    ("tokens", .ofOption (fun ts => .list (ts.map Token.json)) r.tokens),
    ("ast", .ofOption .text r.ast),
    ("value", .ofOption Value.json r.value),
    ("syntax_errors", .list (r.syntaxErrors.map .text)),
    ("runtime_errors", .list (r.runtimeErrors.map .text))]

def text (r : Report) : String :=
  r.json.pretty

end Report

end Lox
