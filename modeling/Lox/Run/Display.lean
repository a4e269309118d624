import Lox.Run.Report
import Lox.Settings.Basic
import Lox.Token.Dump

/-!
What is shown of a source under given settings: as plain text the tokens and the tree, if the
settings ask for them, and the value; or the report as JSON. Plain text shows nothing of a source
with syntax errors.
-/

namespace Lox

/-- What one source text leads to: the text shown, the errors found, and the number of tokens. -/
structure Display where
  output : String
  diagnostics : Diagnostics
  tokenCount : Nat
deriving DecidableEq, Repr, Inhabited

/-- The lines of plain text. -/
def Run.lines (r : Run) (s : Settings) : Except Fault (List String) := do
  let tokens := if s.printTokens then r.tokens.map Token.dump else []
  let tree ← if s.printAst then r.expr.toList.mapM Expr.prefixForm else pure []
  return tokens ++ tree ++ r.value.toList.map Value.text

/-- Lines as text, each with its line break. -/
def textOfLines (lines : List String) : String :=
  String.join (lines.map (· ++ "\n"))

def Settings.display (s : Settings) (json : Bool) (source : String) : Except Fault Display := do
  let (r, d) ← run source s.maxDepth .empty
  let lines ←
    if json then
      let (report, _) ← Report.ofRun r d
      pure [report.text]
    else if d.hasSyntaxErrors then pure []
    else r.lines s
  return ⟨textOfLines lines, d, r.tokens.length⟩

end Lox
