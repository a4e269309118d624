import Lox.Diagnostics.Basic
import Lox.Expr.Evaluation
import Lox.Expr.Reading
import Lox.Token.Scanner

/-!
The steps from a source text to its value over one collection of errors. Each step appends the
errors that it finds; errors that are already there belong to earlier steps and change nothing.
-/

namespace Lox

/-- The greatest height of a tree unless another limit is set. -/
def defaultMaxDepth : Nat := 128

namespace Diagnostics

/-- The tokens of a source text; its lexical errors are added. -/
def scan (d : Diagnostics) (source : String) : List Token × Diagnostics :=
  let found := Lox.scan source
  (found.tokens, d.reportSyntax (found.errors.map .lexical))

/-- The tree of a token list, if it has one; otherwise the error is added. -/
def parse (d : Diagnostics) (tokens : List Token) (limit : Nat) :
    Except Fault (Option Expr × Diagnostics) := do
  let attempt ← Expr.read tokens limit .start
  return (attempt.expr, d.reportSyntax (attempt.error.toList.map .parse))

/-- The value of a tree, if it has one; otherwise the error is added. -/
def evaluate (d : Diagnostics) (e : Expr) : Except Fault (Option Value × Diagnostics) :=
  match e.evaluate with
  | .ok v => .ok (some v, d)
  | .error (.error e) => .ok (none, d.reportRuntime [e])
  | .error (.fault f) => .error f

end Diagnostics

/-- What one run produces. There is no tree if the tokens could not be read, and no value if the
run added an error. -/
structure Run where
  tokens : List Token
  expr : Option Expr
  value : Option Value
deriving BEq, Inhabited

/-- Scans and parses, and evaluates if neither found an error. -/
def run (source : String) (limit : Nat) (d : Diagnostics) : Except Fault (Run × Diagnostics) := do
  let (tokens, scanned) := d.scan source
  let (expr, parsed) ← scanned.parse tokens limit
  match expr with
  | some e =>
    if parsed.syntaxErrors.length = d.syntaxErrors.length then
      let (value, evaluated) ← parsed.evaluate e
      return (⟨tokens, expr, value⟩, evaluated)
    else
      return (⟨tokens, expr, none⟩, parsed)
  | none => return (⟨tokens, none, none⟩, parsed)

end Lox
