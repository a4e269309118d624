import Lox.Diagnostics.Error
import Lox.Expr.Basic
import Lox.Expr.Grammar
import Lox.Fault

/-!
Reading an expression from a list of tokens, by descent through the levels of the grammar.

The reading is bounded twice by one limit. The cursor counts how deep prefix operators and groups
are nested while they are open, and a nesting deeper than the limit is refused at the token that
would go deeper. The height of a tree is known before it is built, and one higher than the limit is
refused at the operator or parenthesis on top of it. So no tree that is built, kept or not, is
higher than the limit.

The stream should end with the end marker, which is never passed. Past the end of a stream without
one the last token is seen again and again.
-/

namespace Lox

/-- How far a reading has come: the tokens passed, and the nestings that are open. -/
structure Cursor where
  position : Nat
  depth : Nat
deriving DecidableEq, Repr, Inhabited

def Cursor.start : Cursor :=
  ⟨0, 0⟩

/-- A tree and its height. -/
structure Measured where
  expr : Expr
  height : Nat
deriving BEq, Inhabited

abbrev Reading := EStateM (Halt ParseError) Cursor

namespace Reading

/-! ## Steps over the stream -/

section
variable (tokens : Array Token)

/-- The token under the cursor, which is the last one past the end of the stream. -/
def seen (c : Cursor) : Token :=
  (tokens[c.position]?.or tokens.back?).getD (Token.endMarker 1)

/-- The cursor behind the current token. The end marker is never passed. -/
def passed (c : Cursor) : Cursor :=
  if (seen tokens c).kind = .endOfInput then c else { c with position := c.position + 1 }

def current : Reading Token := fun c =>
  .ok (seen tokens c) c

def advance : Reading Unit := fun c =>
  .ok () (passed tokens c)

def refuse {α : Type} (t : Token) (cause : ParseError.Cause) : Reading α :=
  throw (.error (.atToken t cause))

/-- Passes the current token if it is an operator of the wanted sort. Past the end of the stream
there is none to hand over. -/
def operator? (wanted : TokenKind → Bool) : Reading (Option Token) := fun c =>
  if wanted (seen tokens c).kind then
    match tokens[c.position]? with
    | some t => .ok (some t) (passed tokens c)
    | none => .error (.fault (.outOfRange tokens.size c.position)) (passed tokens c)
  else .ok none c

/-! ## The limit -/

variable (limit : Nat)

/-- Refuses a tree of the given height at the token on top of it, if that is too high. -/
def checkHeight (top : Token) (height : Nat) : Reading Unit :=
  if limit < height then refuse top .nestsTooDeeply else pure ()

/-- Runs `body` one level deeper, and comes back up whether it succeeds or not. -/
def nested {α : Type} (body : Reading α) : Reading α := fun c =>
  if limit ≤ c.depth then refuse (seen tokens c) .nestsTooDeeply c
  else match body { c with depth := c.depth + 1 } with
    | .ok a c => .ok a { c with depth := c.depth - 1 }
    | .error e c => .error e { c with depth := c.depth - 1 }

/-! ## The levels -/

/-- Folds operators of one level and their right operands onto `left`. Each step passes an operator,
so there are no more steps than tokens. -/
def fold (level : Level) (operand : Reading Measured) : Nat → Measured → Reading Measured
  | 0, left => pure left
  | steps + 1, left => do
    match ← operator? tokens (fun k => k.level? = some level) with
    | none => pure left
    | some op =>
      let right ← operand
      let height := max left.height right.height + 1
      checkHeight limit op height
      fold level operand steps ⟨.binary left.expr op right.expr, height⟩

/-- One level over the next tighter one. -/
def chain (level : Level) (operand : Reading Measured) : Reading Measured := do
  fold tokens limit level operand (tokens.size + 1) (← operand)

/-- All levels of binary operators over operands of the given sort. -/
def binary (operand : Reading Measured) : Reading Measured :=
  Level.all.foldr (chain tokens limit) operand

/-- A leaf, or a group around what `inner` reads. -/
def primary (inner : Reading Measured) : Reading Measured := do
  let t ← current tokens
  if t.kind.isLeaf then
    advance tokens
    pure ⟨.literal t, 1⟩
  else if t.kind = .leftParen then
    advance tokens
    let tree ← inner
    let close ← current tokens
    if close.kind = .rightParen then
      advance tokens
      checkHeight limit t (tree.height + 1)
      pure ⟨.grouping tree.expr, tree.height + 1⟩
    else
      refuse close .expectClosingParen
  else
    refuse t .expectExpression

/-- An operand with its prefix operators. The first argument is the room that is left under the
limit; it runs out exactly when the depth reaches the limit. -/
def unary : Nat → Reading Measured
  | 0 => nested tokens limit (do refuse (← current tokens) .nestsTooDeeply)
  | room + 1 => nested tokens limit do
    match ← operator? tokens TokenKind.isUnary with
    | some op =>
      let operand ← unary room
      checkHeight limit op (operand.height + 1)
      pure ⟨.unary op operand.expr, operand.height + 1⟩
    | none => primary tokens limit (binary tokens limit (unary room))

def expression : Reading Measured :=
  binary tokens limit (unary tokens limit limit)

/-- One expression, and nothing after it but the end marker. -/
def whole : Reading Expr := do
  let tree ← expression tokens limit
  let t ← current tokens
  if t.kind = .endOfInput then pure tree.expr else refuse t .expectEnd

end

end Reading

/-- What one reading leads to: a tree or an error, and where the next reading starts. -/
structure Attempt where
  expr : Option Expr
  error : Option ParseError
  cursor : Cursor
deriving BEq, Inhabited

/-- Reads one expression from the cursor on. An empty list has neither a tree nor an error. -/
def Expr.read (tokens : List Token) (limit : Nat) (c : Cursor) : Except Fault Attempt :=
  if tokens.isEmpty then .ok ⟨none, none, c⟩
  else match Reading.whole tokens.toArray limit c with
    | .ok expr c => .ok ⟨some expr, none, c⟩
    | .error (.error e) c => .ok ⟨none, some e, c⟩
    | .error (.fault f) _ => .error f

end Lox
