import Lox.Proofs.Expr.Payload
import Lox.Proofs.Scanning.Munch
import Lox.Proofs.Scanning.Steps

/-!
The stream of tokens that a scan hands on, whether or not the text has lexical errors. It ends with
its only end marker, and every token carries the payload that its kind calls for (`scan_stream`).
-/

namespace Lox

theorem TokenKind.ofWord_eq (s : String) :
    ofWord s = .identifier ∨ ∃ w, ofWord s = .keyword w := by
  unfold ofWord
  cases Keyword.ofText? s with
  | none => exact .inl rfl
  | some w => exact .inr ⟨w, rfl⟩

namespace Segment

theorem Munches.exists_isCandidate {source : List Char} {ss : List Segment}
    (h : Munches source ss) : ∀ s ∈ ss, ∃ after, IsCandidate s after := by
  induction h with
  | nil => simp
  | @cons s after ss h hafter ih => exact List.forall_mem_cons.mpr ⟨⟨after, h.1⟩, ih⟩

theorem map_segment_place (line : Nat) (ss : List Segment) :
    (place line ss).map PlacedSegment.segment = ss := by
  induction ss generalizing line with
  | nil => rfl
  | cons s ss ih => rw [place, List.map_cons, ih]

/-- No mark is of a kind that carries a payload or ends the stream. -/
theorem Matches.mark_kind {kind : TokenKind} {text after : List Char}
    (h : Matches (.mark kind) text after) :
    kind ≠ .number ∧ kind ≠ .string ∧ kind ≠ .endOfInput := by
  have hmarks : ∀ m ∈ marks, m.2 ≠ .number ∧ m.2 ≠ .string ∧ m.2 ≠ .endOfInput := by decide
  cases h with
  | mark h => exact hmarks _ h

theorem IsCandidate.payloadFits {s : Segment} {after : List Char} {kind : TokenKind}
    (h : IsCandidate s after) (hkind : s.kind? = some kind) (line : Nat) :
    kind ≠ .endOfInput ∧ Token.PayloadFits ⟨line, kind, s.text, s.literal?⟩ := by
  obtain ⟨shape, text⟩ := s
  rcases h with hmatches | ⟨c, hs, -⟩
  · cases shape with
    | layout | comment | openString | stray => cases hkind
    | mark k =>
      cases hkind
      obtain ⟨hnumber, hstring, hend⟩ := hmatches.mark_kind
      exact ⟨hend, by unfold Token.PayloadFits; split <;> first | rfl | contradiction⟩
    | number =>
      cases hkind
      exact ⟨by decide, _, rfl⟩
    | string =>
      cases hkind
      exact ⟨by decide, _, rfl⟩
    | word =>
      cases hkind
      rcases TokenKind.ofWord_eq (Segment.text ⟨.word, text⟩) with hw | ⟨w, hw⟩ <;> rw [hw]
      · exact ⟨by decide, rfl⟩
      · exact ⟨TokenKind.noConfusion, rfl⟩
  · cases hs
    cases hkind

end Segment

/-- The tokens in front of the end marker are candidates of the text, read as tokens. -/
theorem scan_candidates (source : String) :
    ∃ body last, (scan source).tokens = body ++ [Token.endMarker last] ∧
      ∀ t ∈ body, ∃ s after kind line, Segment.IsCandidate s after ∧ s.kind? = some kind ∧
        t = ⟨line, kind, s.text, s.literal?⟩ := by
  rw [scan_eq]
  refine ⟨_, _, rfl, fun t ht => ?_⟩
  obtain ⟨⟨line, s⟩, hp, ht⟩ := List.mem_filterMap.mp ht
  have hs : s ∈ Segment.segments source.toList := by
    rw [← Segment.map_segment_place 1 (Segment.segments source.toList)]
    exact List.mem_map_of_mem hp
  obtain ⟨after, hcandidate⟩ := (Segment.munches_segments _).exists_isCandidate s hs
  obtain ⟨kind, hkind, rfl⟩ := Option.map_eq_some_iff.mp ht
  exact ⟨s, after, kind, _, hcandidate, hkind, rfl⟩

theorem scan_stream (source : String) :
    ∃ body last, (scan source).tokens = body ++ [Token.endMarker last] ∧
      ∀ t ∈ body, t.kind ≠ .endOfInput ∧ t.PayloadFits := by
  obtain ⟨body, last, htokens, hbody⟩ := scan_candidates source
  refine ⟨body, last, htokens, fun t ht => ?_⟩
  obtain ⟨s, after, kind, line, hcandidate, hkind, rfl⟩ := hbody t ht
  exact hcandidate.payloadFits hkind line

end Lox
