import Lox.Proofs.Expr.Spelling
import Lox.Proofs.Reading.Stream

/-!
The equations of a reading, by the token that is ahead: which step it takes on an operator of its
level, on a prefix operator, on a leaf, on a parenthesis, and on any other token.
-/

namespace Lox.Reading

variable {tokens : Array Token} {limit : Nat} {c : Cursor} {t : Token} {rest : List Token}

theorem current_of_ahead (h : ahead tokens c = t :: rest) : current tokens c = .ok t c := by
  simp [current, seen_of_ahead h]

theorem advance_of_ahead (h : ahead tokens c = t :: rest) (hk : t.kind ≠ .endOfInput) :
    advance tokens c = .ok () (forward c 1) := by
  simp [advance, passed_of_ahead h hk]

/-! ## The limit -/

theorem checkHeight_of_le {height : Nat} (h : height ≤ limit) (top : Token) (c : Cursor) :
    checkHeight limit top height c = .ok () c := by
  rw [checkHeight, if_neg (Nat.not_lt.mpr h)]
  rfl

theorem checkHeight_of_lt {height : Nat} (h : limit < height) (top : Token) (c : Cursor) :
    checkHeight limit top height c = .error (.error (.atToken top .nestsTooDeeply)) c := by
  rw [checkHeight, if_pos h]
  rfl

/-- Hands over a tree, if it is not too high for the token on top of it. -/
def capped (limit : Nat) (top : Token) (m : Measured) : Reading Measured := do
  checkHeight limit top m.height
  pure m

theorem capped_of_le {m : Measured} (h : m.height ≤ limit) (top : Token) (c : Cursor) :
    capped limit top m c = .ok m c := by
  rw [capped, bind_of_ok (checkHeight_of_le h top c)]
  rfl

theorem capped_of_lt {m : Measured} (h : limit < m.height) (top : Token) (c : Cursor) :
    capped limit top m c = .error (.error (.atToken top .nestsTooDeeply)) c := by
  rw [capped, bind_of_error (checkHeight_of_lt h top c)]

/-! ## Binary operators -/

section
variable {level : Level} {operand : Reading Measured} {left : Measured}

/-- What a fold does behind an operator: the right operand, the height check, and on. -/
def foldRight (tokens : Array Token) (limit : Nat) (level : Level) (operand : Reading Measured)
    (steps : Nat) (left : Measured) (op : Token) : Reading Measured := do
  let right ← operand
  let height := max left.height right.height + 1
  checkHeight limit op height
  fold tokens limit level operand steps ⟨.binary left.expr op right.expr, height⟩

theorem fold_of_operator {steps : Nat} (ha : ahead tokens c = t :: rest)
    (h : t.kind.level? = some level) : fold tokens limit level operand (steps + 1) left c =
      foldRight tokens limit level operand steps left t (forward c 1) := by
  have hk : t.kind ≠ .endOfInput := by
    intro he
    simp [he, TokenKind.level?] at h
  rw [fold, bind_of_ok (operator?_of_wanted ha hk (by simpa using h))]
  rfl

theorem fold_of_other {steps : Nat} (ha : ahead tokens c = t :: rest)
    (h : t.kind.level? ≠ some level) :
    fold tokens limit level operand (steps + 1) left c = .ok left c := by
  rw [fold, bind_of_ok (operator?_of_unwanted ha (by simpa using h))]
  rfl

/-- What a fold does behind a right operand: the height check, and on with the tree of both. -/
def joined (tokens : Array Token) (limit : Nat) (level : Level) (operand : Reading Measured)
    (steps : Nat) (left : Measured) (op : Token) (right : Measured) : Reading Measured := do
  let height := max left.height right.height + 1
  checkHeight limit op height
  fold tokens limit level operand steps ⟨.binary left.expr op right.expr, height⟩

theorem foldRight_eq (tokens : Array Token) (limit : Nat) (level : Level)
    (operand : Reading Measured) (steps : Nat) (left : Measured) (op : Token) :
    foldRight tokens limit level operand steps left op =
      operand >>= joined tokens limit level operand steps left op := rfl

theorem joined_of_le {steps : Nat} {op : Token} {right : Measured}
    (h : max left.height right.height + 1 ≤ limit) (c : Cursor) :
    joined tokens limit level operand steps left op right c =
      fold tokens limit level operand steps
        ⟨.binary left.expr op right.expr, max left.height right.height + 1⟩ c :=
  bind_of_ok (checkHeight_of_le h op c)

theorem joined_of_lt {steps : Nat} {op : Token} {right : Measured}
    (h : limit < max left.height right.height + 1) (c : Cursor) :
    joined tokens limit level operand steps left op right c =
      .error (.error (.atToken op .nestsTooDeeply)) c :=
  bind_of_error (checkHeight_of_lt h op c)

end

/-! ## Operands -/

/-- What a reading does behind a prefix operator. -/
def afterPrefix (tokens : Array Token) (limit room : Nat) (op : Token) : Reading Measured := do
  let operand ← unary tokens limit room
  capped limit op ⟨.unary op operand.expr, operand.height + 1⟩

/-- What an operand is, one nesting deeper. -/
def operandBody (tokens : Array Token) (limit room : Nat) : Reading Measured := do
  match ← operator? tokens TokenKind.isUnary with
  | some op => afterPrefix tokens limit room op
  | none => primary tokens limit (binary tokens limit (unary tokens limit room))

theorem unary_succ (tokens : Array Token) (limit room : Nat) :
    unary tokens limit (room + 1) = nested tokens limit (operandBody tokens limit room) := rfl

theorem operandBody_of_unary {room : Nat} (ha : ahead tokens c = t :: rest)
    (h : t.kind = .bang ∨ t.kind = .minus) :
    operandBody tokens limit room c = afterPrefix tokens limit room t (forward c 1) := by
  have hk : t.kind ≠ .endOfInput := by
    intro he
    simp [he] at h
  rw [operandBody, bind_of_ok (operator?_of_wanted ha hk ((TokenKind.isUnary_iff _).mpr h))]

theorem operandBody_of_other {room : Nat} (ha : ahead tokens c = t :: rest)
    (h : ¬ (t.kind = .bang ∨ t.kind = .minus)) : operandBody tokens limit room c =
      primary tokens limit (binary tokens limit (unary tokens limit room)) c := by
  rw [operandBody, bind_of_ok (operator?_of_unwanted ha (mt (TokenKind.isUnary_iff _).mp h))]

section
variable {inner : Reading Measured}

theorem primary_of_leaf (ha : ahead tokens c = t :: rest)
    (h : t.kind ∈ [.number, .string, .keyword .trueWord, .keyword .falseWord, .keyword .nilWord]) :
    primary tokens limit inner c = .ok ⟨.literal t, 1⟩ (forward c 1) := by
  have hk : t.kind ≠ .endOfInput := by
    intro he
    simp [he] at h
  rw [primary, bind_of_ok (current_of_ahead ha), if_pos ((TokenKind.isLeaf_iff _).mpr h),
    bind_of_ok (advance_of_ahead ha hk)]
  rfl

/-- What a reading does behind the tree inside a group. -/
def closing (tokens : Array Token) (limit : Nat) (opening : Token) (tree : Measured) :
    Reading Measured := do
  let close ← current tokens
  if close.kind = .rightParen then
    advance tokens
    capped limit opening ⟨.grouping tree.expr, tree.height + 1⟩
  else
    refuse close .expectClosingParen

theorem primary_of_opening (ha : ahead tokens c = t :: rest) (h : t.kind = .leftParen) :
    primary tokens limit inner c = (inner >>= closing tokens limit t) (forward c 1) := by
  have hk : t.kind ≠ .endOfInput := by simp [h]
  rw [primary, bind_of_ok (current_of_ahead ha), if_neg (by simp [h, TokenKind.isLeaf]), if_pos h,
    bind_of_ok (advance_of_ahead ha hk)]
  rfl

theorem primary_of_other (ha : ahead tokens c = t :: rest)
    (hl : t.kind ∉ [.number, .string, .keyword .trueWord, .keyword .falseWord, .keyword .nilWord])
    (ho : t.kind ≠ .leftParen) : primary tokens limit inner c =
      .error (.error (.atToken t .expectExpression)) c := by
  rw [primary, bind_of_ok (current_of_ahead ha), if_neg (mt (TokenKind.isLeaf_iff _).mp hl),
    if_neg ho]
  rfl

theorem closing_of_paren {opening : Token} {tree : Measured} (ha : ahead tokens c = t :: rest)
    (h : t.kind = .rightParen) : closing tokens limit opening tree c =
      capped limit opening ⟨.grouping tree.expr, tree.height + 1⟩ (forward c 1) := by
  rw [closing, bind_of_ok (current_of_ahead ha), if_pos h,
    bind_of_ok (advance_of_ahead ha (by simp [h]))]

theorem closing_of_other {opening : Token} {tree : Measured} (ha : ahead tokens c = t :: rest)
    (h : t.kind ≠ .rightParen) : closing tokens limit opening tree c =
      .error (.error (.atToken t .expectClosingParen)) c := by
  rw [closing, bind_of_ok (current_of_ahead ha), if_neg h]
  rfl

end

end Lox.Reading
