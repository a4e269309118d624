import Lox.Proofs.Expr.Outline
import Lox.Proofs.Reading.Renaming
import Lox.Proofs.Reading.Resuming
import Lox.Proofs.Reading.Verdict

/-!
What the kinds of the tokens decide. Lists of the same kinds are all other tokens for one list that
is numbered through (`numbered`), and so each is read as that one is: either all have a tree of one
outline, or each has an error of one cause at the token of one place (`parse_decided_by_kinds`).
-/

namespace Lox.Reading

/-- Tokens of these kinds, each on a line of its own that tells its place. -/
def numbered (kinds : List TokenKind) : List Token :=
  kinds.mapIdx fun place kind => ⟨place, kind, "", none⟩

/-- The token that stands at the place that a numbered one tells, if it is of the same kind. -/
def placed (tokens : List Token) (t : Token) : Token :=
  (tokens[t.line]?.filter (·.kind = t.kind)).getD t

theorem placed_kind (tokens : List Token) (t : Token) : (placed tokens t).kind = t.kind := by
  unfold placed
  cases h : tokens[t.line]?.filter (·.kind = t.kind) with
  | none => rfl
  | some u => simpa using (Option.filter_eq_some_iff.mp h).2

section
variable {tokens : List Token} {kinds : List TokenKind}

theorem getElem?_of_mem_numbered (h : tokens.map (·.kind) = kinds) {t : Token}
    (ht : t ∈ numbered kinds) : tokens[t.line]? = some (placed tokens t) := by
  subst h
  obtain ⟨place, hplace, rfl⟩ := List.mem_mapIdx.mp ht
  have hlt : place < tokens.length := by simpa using hplace
  have hget : tokens[place]? = some tokens[place] := List.getElem?_eq_getElem hlt
  simp [placed, hget, Option.filter]

theorem map_placed_numbered (h : tokens.map (·.kind) = kinds) :
    (numbered kinds).map (placed tokens) = tokens := by
  have hlength : (numbered kinds).length = tokens.length := by simp [numbered, ← h]
  refine List.ext_getElem? fun place => ?_
  by_cases hlt : place < (numbered kinds).length
  · have hline : ((numbered kinds)[place]).line = place := by simp [numbered]
    rw [List.getElem?_map, List.getElem?_eq_getElem hlt, Option.map_some,
      ← getElem?_of_mem_numbered h (List.getElem_mem hlt), hline]
  · rw [List.getElem?_eq_none (by rw [List.length_map]; omega), List.getElem?_eq_none (by omega)]

theorem isNumbered_numbered (kinds : List TokenKind) : IsNumbered 0 (numbered kinds) := by
  refine List.ext_getElem (by simp [numbered]) fun place _ _ => ?_
  simp [numbered]

theorem map_kind_numbered (kinds : List TokenKind) : (numbered kinds).map (·.kind) = kinds := by
  refine List.ext_getElem (by simp [numbered]) fun place _ _ => ?_
  simp [numbered]

end

/-! ## Attempts on streams of the same kinds -/

section
variable {tokens : List Token} {limit : Nat} {c c' : Cursor} {f : Token → Token}
  (hf : ∀ t, (f t).kind = t.kind)
include hf

theorem read_map_of_tree {e : Expr} (h : Expr.read tokens limit c = .ok ⟨some e, none, c'⟩) :
    Expr.read (tokens.map f) limit c = .ok ⟨some (e.map f), none, c'⟩ := by
  have hne : tokens ≠ [] := by
    rintro rfl
    cases h
  rcases read_map hf hne limit c with ⟨e, c₁, hr, hr'⟩ | ⟨t, cause, c₁, hr, -⟩ | ⟨x, hr, -⟩
  · cases h.symm.trans hr
    exact hr'
  · cases h.symm.trans hr
  · cases h.symm.trans hr

theorem read_map_of_error {error : ParseError}
    (h : Expr.read tokens limit c = .ok ⟨none, some error, c'⟩) : ∃ t cause,
      error = .atToken t cause ∧
        Expr.read (tokens.map f) limit c = .ok ⟨none, some (.atToken (f t) cause), c'⟩ := by
  have hne : tokens ≠ [] := by
    rintro rfl
    cases h
  rcases read_map hf hne limit c with ⟨e, c₁, hr, -⟩ | ⟨t, cause, c₁, hr, hr'⟩ | ⟨x, hr, -⟩
  · cases h.symm.trans hr
  · cases h.symm.trans hr
    exact ⟨t, cause, rfl, hr'⟩
  · cases h.symm.trans hr

/-- The error of a reading stands at a token of the stream: other tokens outside the stream make no
difference to a reading, so the error is not at one of these. -/
theorem exists_mem_of_read_error {error : ParseError}
    (h : Expr.read tokens limit c = .ok ⟨none, some error, c'⟩) : ∃ t ∈ tokens, ∃ cause,
      error = .atToken t cause ∧
        Expr.read (tokens.map f) limit c = .ok ⟨none, some (.atToken (f t) cause), c'⟩ := by
  classical
  obtain ⟨u, cause', -, hu⟩ := read_map_of_error hf h
  -- outside the stream all tokens are moved to a line on which there is no error
  let g (t : Token) : Token := if t ∈ tokens then f t else { t with line := (f u).line + 1 }
  have hg : ∀ t, (g t).kind = t.kind := by
    intro t
    by_cases ht : t ∈ tokens
    · simp [g, ht, hf]
    · simp [g, ht]
  have hmap : tokens.map g = tokens.map f := by
    refine List.map_congr_left fun t ht => ?_
    simp [g, ht]
  obtain ⟨t, cause, herror, ht⟩ := read_map_of_error hg h
  rw [hmap] at ht
  have hmem : t ∈ tokens := by
    refine Classical.byContradiction fun hmem => ?_
    have heq := hu.symm.trans ht
    simp [ParseError.atToken, g, hmem] at heq
  have hgt : g t = f t := if_pos hmem
  rw [hgt] at ht
  exact ⟨t, hmem, cause, herror, ht⟩

end

/-! ## Streams with an end marker -/

theorem exists_split_of_mem_end {tokens : List Token} (h : .endOfInput ∈ tokens.map (·.kind)) :
    ∃ body last rest, tokens = body ++ last :: rest ∧ last.kind = .endOfInput ∧
      (∀ t ∈ body, t.kind ≠ .endOfInput) ∧
      body.length = (tokens.map (·.kind)).idxOf .endOfInput := by
  induction tokens with
  | nil => simp at h
  | cons t tokens ih =>
    by_cases ht : t.kind = .endOfInput
    · exact ⟨[], t, tokens, rfl, ht, by simp, by simp [ht]⟩
    · have hrest : .endOfInput ∈ tokens.map (·.kind) := by simpa [Ne.symm ht] using h
      obtain ⟨body, last, rest, rfl, hlast, hbody, hlength⟩ := ih hrest
      refine ⟨t :: body, last, rest, rfl, hlast, List.forall_mem_cons.mpr ⟨ht, hbody⟩, ?_⟩
      rw [List.length_cons, hlength, List.map_cons, List.idxOf_cons, beq_false_of_ne ht, cond_false]

/-- What is behind the first end marker makes no difference to whether there is a tree. -/
theorem read_append {body : List Token} {last : Token} (hbody : ∀ t ∈ body, t.kind ≠ .endOfInput)
    (hlast : last.kind = .endOfInput) (rest : List Token) (limit : Nat) :
    (∃ e c, Expr.read (body ++ last :: rest) limit .start = .ok ⟨some e, none, c⟩ ∧
      e.Spells body) ∨
    ∃ error c, Expr.read (body ++ last :: rest) limit .start = .ok ⟨none, some error, c⟩ := by
  obtain ⟨a, -, hread⟩ := exists_attempt hlast limit (c := .start) (Nat.zero_le _) rfl
  have hr := (hread rest).1
  rcases read_outcome hbody hlast limit with ⟨e, he, hspells, -⟩ | ⟨t, cause, c, herror, -⟩
  · cases (hread []).1.symm.trans he
    exact .inl ⟨e, _, hr, hspells⟩
  · cases (hread []).1.symm.trans herror
    exact .inr ⟨_, c, hr⟩

/-- Parsing depends on the kinds of the tokens only. For kinds with an end marker among them, either
all streams of these kinds have a tree, and their trees have one outline, filled in by each with its
own tokens; or all have an error of one cause, and each has it at its own token of one place. -/
theorem parse_decided_by_kinds {kinds : List TokenKind} (hend : .endOfInput ∈ kinds)
    (limit : Nat) :
    (∃ o : Outline, o.Covers 0 (kinds.idxOf .endOfInput) ∧
      ∀ tokens : List Token, tokens.map (·.kind) = kinds → ∀ d : Diagnostics,
        ∃ e, o.fill tokens = some e ∧ d.parse tokens limit = .ok (some e, d)) ∨
    ∃ (place : Nat) (cause : ParseError.Cause),
      ∀ tokens : List Token, tokens.map (·.kind) = kinds → ∀ d : Diagnostics,
        ∃ t, tokens[place]? = some t ∧ d.parse tokens limit =
          .ok (none, d.reportSyntax [.parse (.atToken t cause)]) := by
  -- the numbered stream is read first, and all others are read as it is
  have hkinds := map_kind_numbered kinds
  rw [← hkinds] at hend
  obtain ⟨body, last, rest, hsplit, hlast, hbody, hlength⟩ := exists_split_of_mem_end hend
  rw [hkinds] at hlength
  have hread := read_append hbody hlast rest limit
  rw [← hsplit] at hread
  rcases hread with ⟨e, c, hr, hspells⟩ | ⟨error, c, hr⟩
  · left
    have hnumbered := isNumbered_numbered kinds
    rw [hsplit] at hnumbered
    refine ⟨e.outline, ?_, fun tokens htokens d => ⟨e.map (placed tokens), ?_, ?_⟩⟩
    · have hcovers := hspells.covers_outline (isNumbered_append.mp hnumbered).1
      rwa [Nat.zero_add, hlength] at hcovers
    · refine hspells.fill_outline fun t ht => getElem?_of_mem_numbered htokens ?_
      rw [hsplit]
      exact List.mem_append_left _ ht
    · have hmap := read_map_of_tree (placed_kind tokens) hr
      rw [map_placed_numbered htokens] at hmap
      exact Diagnostics.parse_of_read hmap d
  · -- the line of the error tells its place, as no other stream has been looked at yet
    right
    refine ⟨error.line, error.cause, fun tokens htokens d => ?_⟩
    obtain ⟨t, ht, cause, rfl, hread⟩ := exists_mem_of_read_error (placed_kind tokens) hr
    rw [map_placed_numbered htokens] at hread
    exact ⟨placed tokens t, getElem?_of_mem_numbered htokens ht, Diagnostics.parse_of_refused hread d⟩

/-- A difference: under a limit of two nodes all streams of these kinds have trees of one outline
over their first three tokens, whatever is behind the end marker. -/
theorem parse_decided_by_kinds_difference :
    let kinds : List TokenKind := [.number, .minus, .keyword .nilWord, .endOfInput, .star]
    .endOfInput ∈ kinds ∧ ∃ o : Outline, o.Covers 0 3 ∧
      ∀ tokens : List Token, tokens.map (·.kind) = kinds → ∀ d : Diagnostics,
        ∃ e, o.fill tokens = some e ∧ d.parse tokens 2 = .ok (some e, d) := by
  intro kinds
  have hend : .endOfInput ∈ kinds := by decide
  refine ⟨hend, (parse_decided_by_kinds hend 2).resolve_right ?_⟩
  rintro ⟨place, cause, h⟩
  obtain ⟨t, -, hparse⟩ := h (numbered kinds) rfl .empty
  cases hparse

end Lox.Reading
