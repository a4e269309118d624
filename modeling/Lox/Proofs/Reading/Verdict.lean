import Lox.Proofs.Reading.Whole

/-!
Under a limit that no tree of the stream can exceed, a reading and the automaton agree: there is a
tree if the automaton accepts, and otherwise one error, at the token at which the automaton is stuck
and in its words (`parse_eq_verdict`).
-/

namespace Lox

namespace Diagnostics

theorem reportSyntax_nil (d : Diagnostics) : d.reportSyntax [] = d := by
  simp [reportSyntax]

section
variable {tokens : List Token} {limit : Nat} {c : Cursor}

theorem parse_of_read {e : Expr}
    (h : Expr.read tokens limit .start = .ok ⟨some e, none, c⟩) (d : Diagnostics) :
    d.parse tokens limit = .ok (some e, d) := by
  rw [parse, h]
  exact congrArg (fun d => Except.ok (some e, d)) d.reportSyntax_nil

theorem parse_of_refused {error : ParseError}
    (h : Expr.read tokens limit .start = .ok ⟨none, some error, c⟩) (d : Diagnostics) :
    d.parse tokens limit = .ok (none, d.reportSyntax [.parse error]) := by
  rw [parse, h]
  rfl

end

end Diagnostics

namespace Reading

open Automaton (verdict)

variable {body : List Token} {last : Token} {limit : Nat}

theorem parse_eq_verdict (hbody : ∀ t ∈ body, t.kind ≠ .endOfInput)
    (hlast : last.kind = .endOfInput) (hlimit : (body ++ [last]).length ≤ limit)
    (d : Diagnostics) :
    match verdict Automaton.start (body ++ [last]) with
    | .accepted => ∃ e, d.parse (body ++ [last]) limit = .ok (some e, d)
    | .stuck t message => ∃ error,
      d.parse (body ++ [last]) limit = .ok (none, d.reportSyntax [.parse error]) ∧
        error.message = message ∧ error.line = t.line ∧
        error.place = if t.kind = .endOfInput then .atEnd else .atLexeme t.lexeme
    | .pending _ => False := by
  rcases read_outcome hbody hlast limit with
    ⟨e, hr, -, -, -, hv⟩ | ⟨t, cause, c, hr, ⟨-, hlt⟩ | hv⟩
  · rw [hv]
    refine ⟨e, ?_⟩
    rw [Diagnostics.parse, hr]
    simp [bind, Except.bind, pure, Except.pure, Diagnostics.reportSyntax_nil]
  · omega
  · rw [hv]
    refine ⟨.atToken t cause, ?_, rfl, rfl, rfl⟩
    rw [Diagnostics.parse, hr]
    rfl

/-- A group that is still open at the end of `(1`. -/
theorem parse_open_group :
    let opening : Token := ⟨1, .leftParen, "(", none⟩
    let one : Token := ⟨1, .number, "1", some (.number 1)⟩
    (∀ t ∈ [opening, one], t.kind ≠ .endOfInput) ∧ (Token.endMarker 2).kind = .endOfInput ∧
      ([opening, one] ++ [Token.endMarker 2]).length ≤ 3 ∧
      ∃ error, Diagnostics.empty.parse ([opening, one] ++ [Token.endMarker 2]) 3 =
          .ok (none, Diagnostics.empty.reportSyntax [.parse error]) ∧
        error.message = "Expect ')' after expression." ∧ error.line = 2 ∧ error.place = .atEnd := by
  intro opening one
  have hbody : ∀ t ∈ [opening, one], t.kind ≠ .endOfInput := by decide
  have hlength : ([opening, one] ++ [Token.endMarker 2]).length ≤ 3 := by decide
  exact ⟨hbody, rfl, hlength, parse_eq_verdict hbody rfl hlength .empty⟩

end Reading

end Lox
