import Lox.Expr.Evaluation
import Lox.Expr.PrefixForm

/-!
Lines. A tree is evaluated and written the same whatever lines its tokens stand on; a line is
nothing but copied into the error at an operator (`Expr.evaluate_unplaced`). What stands on no line
in particular is put on line 0.
-/

namespace Lox

def Token.unplaced (t : Token) : Token :=
  { t with line := 0 }

def ParseError.unplaced (e : ParseError) : ParseError :=
  { e with line := 0 }

def RuntimeError.unplaced (e : RuntimeError) : RuntimeError :=
  { e with line := 0 }

def SyntaxError.unplaced : SyntaxError → SyntaxError
  | lexical e => .lexical { e with line := 0 }
  | parse e => .parse e.unplaced

def Halt.unplaced : Halt RuntimeError → Halt RuntimeError
  | error e => error e.unplaced
  | fault f => fault f

namespace Expr

/-- The tree with other tokens. -/
def map (f : Token → Token) : Expr → Expr
  | literal t => literal (f t)
  | unary op operand => unary (f op) (operand.map f)
  | binary left op right => binary (left.map f) (f op) (right.map f)
  | grouping inner => grouping (inner.map f)

def unplaced (e : Expr) : Expr :=
  e.map Token.unplaced

theorem prefixForm_unplaced (e : Expr) : e.unplaced.prefixForm = e.prefixForm := by
  unfold unplaced
  induction e with
  | literal t => rfl
  | unary op operand ih => rw [map, prefixForm, prefixForm, ih]; rfl
  | binary left op right ihl ihr => rw [map, prefixForm, prefixForm, ihl, ihr]; rfl
  | grouping inner ih => rw [map, prefixForm, prefixForm, ih]

end Expr

namespace Evaluation

def unplaced (r : Result) : Result :=
  r.mapError Halt.unplaced

theorem unplaced_bind (r : Result) (f : Value → Result) :
    unplaced (r >>= f) = unplaced r >>= fun v => unplaced (f v) := by
  cases r <;> rfl

theorem applyUnary_unplaced (op : Token) (operand : Value) :
    applyUnary op.unplaced operand = unplaced (applyUnary op operand) := by
  obtain ⟨line, kind, lexeme, payload⟩ := op
  cases kind with
  | minus => cases operand <;> rfl
  | _ => rfl

theorem onNumbers_unplaced (op : Token) (left right : Value) (f : Float → Float → Value) :
    onNumbers op.unplaced left right f = unplaced (onNumbers op left right f) := by
  cases left <;> cases right <;> rfl

theorem applyBinary_unplaced (op : Token) (left right : Value) :
    applyBinary op.unplaced left right = unplaced (applyBinary op left right) := by
  obtain ⟨line, kind, lexeme, payload⟩ := op
  cases kind with
  | plus => cases left <;> cases right <;> rfl
  | minus | star | slash | greater | greaterEqual | less | lessEqual =>
    exact onNumbers_unplaced _ left right _
  | _ => rfl

end Evaluation

theorem Expr.evaluate_unplaced (e : Expr) :
    e.unplaced.evaluate = Evaluation.unplaced e.evaluate := by
  unfold unplaced
  induction e with
  | literal t =>
    have hleaf : t.unplaced.leafValue? = t.leafValue? := rfl
    rw [map, evaluate, evaluate, hleaf]
    cases t.leafValue? <;> rfl
  | unary op operand ih =>
    rw [map, evaluate, evaluate, ih, Evaluation.unplaced_bind]
    simp only [Evaluation.applyUnary_unplaced]
  | binary left op right ihl ihr =>
    rw [map, evaluate, evaluate, ihl, ihr]
    simp only [Evaluation.unplaced_bind, Evaluation.applyBinary_unplaced]
  | grouping inner ih => exact ih

section
variable {e e' : Expr} (h : e'.unplaced = e.unplaced)
include h

theorem Expr.unplaced_evaluate_eq :
    Evaluation.unplaced e'.evaluate = Evaluation.unplaced e.evaluate := by
  rw [← evaluate_unplaced, h, evaluate_unplaced]

theorem Expr.evaluate_ok_of_unplaced_eq {v : Value} (hvalue : e.evaluate = .ok v) :
    e'.evaluate = .ok v := by
  have heq := unplaced_evaluate_eq h
  rw [hvalue] at heq
  cases hvalue' : e'.evaluate <;> rw [hvalue'] at heq <;> cases heq
  rfl

theorem Expr.evaluate_error_of_unplaced_eq {error : RuntimeError}
    (herror : e.evaluate = .error (.error error)) :
    ∃ error', e'.evaluate = .error (.error error') ∧ error'.unplaced = error.unplaced := by
  have heq := unplaced_evaluate_eq h
  rw [herror] at heq
  match herror' : e'.evaluate with
  | .ok v => rw [herror'] at heq; cases heq
  | .error (.fault f) => rw [herror'] at heq; cases heq
  | .error (.error error') =>
    rw [herror'] at heq
    exact ⟨error', rfl, Halt.error.inj (Except.error.inj heq)⟩

end

end Lox
