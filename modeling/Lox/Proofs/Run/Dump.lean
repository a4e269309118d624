import Lox.Proofs.Run.Display
import Lox.Proofs.Text.Printable

/-!
The dump of tokens. Of the parts of a token only the payload is written as it is, and only the
payload of a string can hold what is not printable. So the dump of a token has such characters, line
breaks among them, exactly where the lexeme of a string does: it takes as many lines more than one
as there are line breaks in the lexeme (`display_tokens`).
-/

namespace Lox

open Text

/-! ## Tokens -/

namespace TokenKind

theorem printable_name (k : TokenKind) : Printable k.name.toList := by
  apply printable_of_all
  cases k with
  | keyword w => cases w <;> decide
  | _ => decide

end TokenKind

namespace Token

/-- The characters of a payload that stand in a dump as they are. -/
def plainPayload (t : Token) : List Char :=
  match t.literal with
  | some (.string s) => s.toList
  | _ => []

theorem printable_decimals (x : Float) : Printable (decimals.text x).toList :=
  Decimal.Layout.printable_text (printable_of_all (by decide)) (printable_of_all (by decide)) x

/-- All that is not printable in a dump comes from the payload of a string. -/
theorem count_dump (t : Token) {c : Char} (hc : ¬ isPrintable c) :
    t.dump.toList.count c = t.plainPayload.count c := by
  have hspace : isPrintable ' ' := by decide
  have hfront : Printable (t.kind.name ++ " " ++ quoted t.lexeme ++ " ").toList := by
    simp [t.kind.printable_name, printable_quoted, hspace]
  have hpayload : ((t.literal.map Literal.dump).getD "null").toList.count c =
      t.plainPayload.count c := by
    unfold plainPayload
    match t.literal with
    | some (.string s) => rfl
    | some (.number x) => exact (printable_decimals x).count_eq_zero hc
    | none =>
      have hnull : Printable "null".toList := printable_of_all (by decide)
      exact hnull.count_eq_zero hc
  rw [dump, String.toList_append, List.count_append, hfront.count_eq_zero hc, hpayload,
    Nat.zero_add]

end Token

/-! ## Tokens of a source -/

namespace Segment

theorem isPrintable_of_isWordChar {c : Char} (h : Scanner.isWordChar c) : isPrintable c := by
  simp only [Scanner.isWordChar, Scanner.isLetter, Bool.or_eq_true, decide_eq_true_eq] at h
  rcases h with (h | rfl) | h
  · exact isPrintable_of_isAlpha h
  · decide
  · exact isPrintable_of_isDigit h

/-- Nothing but a string can hold what is not printable. -/
theorem Matches.printable {shape : Shape} {text after : List Char} (h : Matches shape text after)
    (htoken : shape.isToken) (hstring : shape ≠ .string) : Printable text := by
  have hmarks : ∀ m ∈ marks, m.1.all isPrintable := by decide
  cases h with
  | layout | comment | openString => cases htoken
  | string => exact absurd rfl hstring
  | mark h => exact printable_of_all (hmarks _ h)
  | whole hne h => exact fun c hc => isPrintable_of_isDigit (h c hc)
  | decimal hne h hne' h' =>
    refine printable_append.mpr ⟨fun c hc => isPrintable_of_isDigit (h c hc), ?_⟩
    exact printable_cons.mpr ⟨by decide, fun c hc => isPrintable_of_isDigit (h' c hc)⟩
  | @word d more hd h =>
    have hfirst : Scanner.isWordChar d := by simp [Scanner.isWordChar, hd]
    refine printable_cons.mpr ⟨isPrintable_of_isWordChar hfirst, fun c hc => ?_⟩
    exact isPrintable_of_isWordChar (h c hc)

/-- The payload of a string holds what its lexeme does between the quotes. -/
theorem IsCandidate.count_lexeme {s : Segment} {after : List Char} {kind : TokenKind}
    (h : IsCandidate s after) (hkind : s.kind? = some kind) (line : Nat) {c : Char}
    (hc : ¬ isPrintable c) :
    s.text.toList.count c = (Token.mk line kind s.text s.literal?).plainPayload.count c ∧
      (c ∈ s.text.toList → kind = .string) := by
  obtain ⟨shape, text⟩ := s
  rcases h with hmatches | ⟨d, hs, -⟩
  · rw [show Segment.text ⟨shape, text⟩ = String.ofList text from rfl, String.toList_ofList]
    cases shape with
    | layout | comment | openString | stray => cases hkind
    | string =>
      cases hkind
      refine ⟨?_, fun _ => rfl⟩
      cases hmatches with
      | @string text =>
        have hquote : c ≠ '"' := by
          rintro rfl
          exact hc (by decide)
        show _ = (Segment.inside ⟨.string, '"' :: text ++ ['"']⟩).toList.count c
        rw [inside, List.cons_append, List.tail_cons, List.dropLast_concat, String.toList_ofList]
        simp [hquote.symm]
    | mark k | number | word =>
      have hprintable := hmatches.printable rfl (by simp)
      refine ⟨hprintable.count_eq_zero hc, fun hmem => absurd (hprintable c hmem) hc⟩
  · cases hs
    cases hkind

end Segment

/-- The dump of a token of a source has the characters of its lexeme that are not printable, which
only the lexeme of a string has. -/
theorem count_dump_of_mem_scan {source : String} {t : Token} (ht : t ∈ (scan source).tokens)
    {c : Char} (hc : ¬ isPrintable c) :
    t.dump.toList.count c = t.lexeme.toList.count c ∧ (c ∈ t.lexeme.toList → t.kind = .string) := by
  obtain ⟨body, last, htokens, hbody⟩ := scan_candidates source
  rw [t.count_dump hc]
  rw [htokens] at ht
  rcases List.mem_append.mp ht with ht | ht
  · obtain ⟨s, after, kind, line, hcandidate, hkind, rfl⟩ := hbody t ht
    obtain ⟨hcount, hstring⟩ := hcandidate.count_lexeme hkind line hc
    exact ⟨hcount.symm, hstring⟩
  · rw [List.mem_singleton.mp ht]
    exact ⟨rfl, nofun⟩

/-! ## Lines -/

theorem count_textOfLines (lines : List String) :
    (textOfLines lines).toList.count '\n' =
      lines.length + (lines.flatMap String.toList).count '\n' := by
  induction lines with
  | nil => rfl
  | cons line lines ih =>
    have hcons : textOfLines (line :: lines) = line ++ "\n" ++ textOfLines lines := by
      simp [textOfLines]
    have hbreak : "\n".toList.count '\n' = 1 := by decide
    rw [hcons, String.toList_append, String.toList_append, List.count_append, List.count_append, ih,
      hbreak, List.length_cons, List.flatMap_cons, List.count_append]
    omega

theorem count_flatMap_eq {α : Type} {xs : List α} {f g : α → List Char} {c : Char}
    (h : ∀ x ∈ xs, (f x).count c = (g x).count c) :
    (xs.flatMap f).count c = (xs.flatMap g).count c := by
  induction xs with
  | nil => rfl
  | cons x xs ih =>
    obtain ⟨hx, hxs⟩ := List.forall_mem_cons.mp h
    rw [List.flatMap_cons, List.flatMap_cons, List.count_append, List.count_append, hx, ih hxs]

theorem textOfLines_append (lines more : List String) :
    textOfLines (lines ++ more) = textOfLines lines ++ textOfLines more := by
  simp [textOfLines]

/-- What is shown of a source with its tokens. In front stand the dumps of its tokens, which hold
what is not printable exactly where the lexeme of a string does. So they take one line each, and one
more for each line break inside a string. -/
theorem Settings.display_tokens (s : Settings) (source : String) :
    ∃ r d, run source s.maxDepth .empty = .ok (r, d) ∧ r.tokens = (scan source).tokens ∧
      (s.printTokens → d.syntaxErrors = [] → ∃ rest, s.display false source =
        .ok ⟨textOfLines (r.tokens.map Token.dump) ++ rest, d, r.tokens.length⟩) ∧
      (textOfLines (r.tokens.map Token.dump)).toList.count '\n' =
        r.tokens.length + (r.tokens.flatMap (·.lexeme.toList)).count '\n' ∧
      ∀ t ∈ r.tokens, ∀ c, ¬ isPrintable c →
        (c ∈ t.dump.toList ↔ t.kind = .string ∧ c ∈ t.lexeme.toList) := by
  obtain ⟨r, d, report, hshows⟩ := exists_shows s source
  have htokens : r.tokens = (scan source).tokens := by
    cases RunOutcome.of_run hshows.run_eq <;> rfl
  refine ⟨r, d, hshows.run_eq, htokens, fun hprint hd => ?_, ?_, fun t ht c hc => ?_⟩
  · have hreport : report.tokens = some r.tokens := (hshows.tells.shown hd).1
    rw [hshows.display_eq, Report.shown, if_neg Bool.false_ne_true, Report.lines, if_pos hprint,
      hreport, Option.getD_some, List.append_assoc, textOfLines_append]
    exact ⟨_, rfl⟩
  · rw [count_textOfLines, List.length_map, List.flatMap_map, Nat.add_left_cancel_iff]
    refine count_flatMap_eq fun t ht => ?_
    exact (count_dump_of_mem_scan (htokens ▸ ht) (by decide)).1
  · obtain ⟨hcount, hstring⟩ := count_dump_of_mem_scan (htokens ▸ ht) hc
    rw [← List.count_pos_iff, hcount, List.count_pos_iff]
    exact ⟨fun hmem => ⟨hstring hmem, hmem⟩, And.right⟩

/-- Of a string over two lines the dump takes two, and so the dumps of two tokens take three. -/
theorem Settings.display_string_over_two_lines :
    (¬ ∀ t ∈ (scan "\"a\nb\"").tokens, '\n' ∉ t.dump.toList) ∧
      (scan "\"a\nb\"").tokens.length = 2 ∧
      ({ standard with printTokens := true }.display false "\"a\nb\"").toOption =
        some ⟨"STRING \"\\\"a\\nb\\\"\" a\nb\n" ++ "END \"\" null\n" ++ "a\nb\n", .empty, 2⟩ := by
  decide +kernel

end Lox
