import Lox.Proofs.Scanning.Stream
import Lox.Proofs.Scanning.Tokens

/-!
The lines of tokens and errors. A line is told from the text that stands before it: the line of a
token counts the line breaks up to the end of its lexeme, that of an error those before its first
character (`scan_lines`). So the lines never go back.
-/

namespace Lox

/-- A segment and the text before it. -/
structure LocatedSegment where
  before : List Char
  segment : Segment
deriving DecidableEq, Repr, Inhabited

namespace Segment

/-- Consecutive segments with the text before each, which is the given one before the first. -/
def locate : List Char → List Segment → List LocatedSegment
  | _, [] => []
  | before, s :: ss => ⟨before, s⟩ :: locate (before ++ s.chars) ss

section
variable (before : List Char) (ss : List Segment)

/-- What stands before a segment, the segment and what comes behind it are the whole text. -/
theorem exists_after_of_mem_locate {p : LocatedSegment} (hp : p ∈ locate before ss) :
    ∃ after, p.before ++ (p.segment.chars ++ after) = before ++ ss.flatMap chars := by
  induction ss generalizing before with
  | nil => cases hp
  | cons s ss ih =>
    rw [List.flatMap_cons]
    rcases List.mem_cons.mp hp with rfl | hp
    · exact ⟨ss.flatMap chars, rfl⟩
    · obtain ⟨after, hafter⟩ := ih _ hp
      exact ⟨after, by rw [hafter, List.append_assoc]⟩

theorem map_segment_locate : (locate before ss).map LocatedSegment.segment = ss := by
  induction ss generalizing before with
  | nil => rfl
  | cons s ss ih => rw [locate, List.map_cons, ih]

end

end Segment

/-! ## Lines from the text before -/

/-- The segment on the line that the text before it leads to. -/
def LocatedSegment.placed (p : LocatedSegment) : PlacedSegment :=
  ⟨1 + p.before.count '\n', p.segment⟩

namespace PlacedSegment

variable {p : PlacedSegment}

theorem line_of_token? {t : Token} (h : p.token? = some t) :
    t.line = p.line + p.segment.lineBreaks := by
  obtain ⟨kind, -, rfl⟩ := Option.map_eq_some_iff.mp h
  rfl

theorem line_of_error? {e : LexicalError} (h : p.error? = some e) : e.line = p.line := by
  unfold error? at h
  split at h
  · cases h
    rfl
  · obtain ⟨c, -, rfl⟩ := Option.map_eq_some_iff.mp h
    rfl
  · cases h

end PlacedSegment

namespace Segment

theorem place_eq_map_locate (before : List Char) (ss : List Segment) :
    place (1 + before.count '\n') ss = (locate before ss).map LocatedSegment.placed := by
  induction ss generalizing before with
  | nil => rfl
  | cons s ss ih =>
    rw [place, locate, List.map_cons, ← ih, List.count_append, ← Nat.add_assoc]
    rfl

/-- What the segments of a text yield belongs to them one by one, wherever they stand. -/
theorem forall₂_locate {β : Type} {R : LocatedSegment → β → Prop} {q : LocatedSegment → Bool}
    {f : PlacedSegment → Option β} {located : List LocatedSegment}
    (hsome : ∀ p ∈ located, q p → ∃ b, f p.placed = some b ∧ R p b)
    (hnone : ∀ p ∈ located, q p = false → f p.placed = none) :
    List.Forall₂ R (located.filter q)
      ((located.map LocatedSegment.placed).filterMap f) := by
  induction located with
  | nil => exact .nil
  | cons p located ih =>
    obtain ⟨hp, hsome⟩ := List.forall_mem_cons.mp hsome
    obtain ⟨hp', hnone⟩ := List.forall_mem_cons.mp hnone
    rw [List.map_cons, List.filterMap_cons]
    by_cases hq : q p
    · obtain ⟨b, hb, hR⟩ := hp hq
      rw [hb, List.filter_cons_of_pos hq]
      exact .cons hR (ih hsome hnone)
    · rw [hp' (by simpa using hq), List.filter_cons_of_neg hq]
      exact ih hsome hnone

/-! ## Lines never go back -/

/-- What stands within its segment follows what stands within the segments before it. -/
theorem pairwise_place {β : Type} {f : PlacedSegment → Option β} {lineOf : β → Nat}
    (h : ∀ p b, f p = some b →
      p.line ≤ lineOf b ∧ lineOf b ≤ p.line + p.segment.lineBreaks)
    (line : Nat) (ss : List Segment) :
    (((place line ss).filterMap f).map lineOf).Pairwise (· ≤ ·) ∧
      ∀ n ∈ ((place line ss).filterMap f).map lineOf,
        line ≤ n ∧ n ≤ line + (ss.flatMap chars).count '\n' := by
  induction ss generalizing line with
  | nil => exact ⟨.nil, fun n hn => absurd hn List.not_mem_nil⟩
  | cons s ss ih =>
    obtain ⟨hpairwise, hbounds⟩ := ih (line + s.lineBreaks)
    have hcount : ((s :: ss).flatMap chars).count '\n' =
        s.lineBreaks + (ss.flatMap chars).count '\n' := by
      rw [List.flatMap_cons, List.count_append, lineBreaks]
    rw [place, List.filterMap_cons, hcount]
    cases hf : f ⟨line, s⟩ with
    | none =>
      refine ⟨hpairwise, fun n hn => ?_⟩
      have := hbounds n hn
      omega
    | some b =>
      have hb := h _ b hf
      dsimp only at hb
      rw [List.map_cons, List.pairwise_cons]
      refine ⟨⟨fun n hn => ?_, hpairwise⟩, List.forall_mem_cons.mpr ⟨?_, fun n hn => ?_⟩⟩
      · have := hbounds n hn
        omega
      · omega
      · have := hbounds n hn
        omega

end Segment

open Segment

/-- The lines of the tokens, end marker included, and of the errors of a text never go back and are
at least one. -/
theorem scan_lines_ascend (source : String) :
    (((scan source).tokens.map Token.line).Pairwise (· ≤ ·) ∧
      ∀ t ∈ (scan source).tokens, 1 ≤ t.line) ∧
    ((scan source).errors.map LexicalError.line).Pairwise (· ≤ ·) ∧
      ∀ e ∈ (scan source).errors, 1 ≤ e.line := by
  have htoken : ∀ p t, PlacedSegment.token? p = some t →
      p.line ≤ t.line ∧ t.line ≤ p.line + p.segment.lineBreaks := by
    intro p t ht
    rw [PlacedSegment.line_of_token? ht]
    omega
  have herror : ∀ p e, PlacedSegment.error? p = some e →
      p.line ≤ e.line ∧ e.line ≤ p.line + p.segment.lineBreaks := by
    intro p e he
    rw [PlacedSegment.line_of_error? he]
    omega
  obtain ⟨htokens, hlast⟩ := pairwise_place htoken 1 (segments source.toList)
  obtain ⟨herrors, hfirst⟩ := pairwise_place herror 1 (segments source.toList)
  rw [flatMap_chars_segments] at hlast
  rw [scan_eq]
  refine ⟨⟨?_, ?_⟩, herrors, fun e he => (hfirst _ (List.mem_map_of_mem he)).1⟩
  · -- the end marker stands on the last line of the text
    rw [List.map_append, List.map_singleton]
    refine List.pairwise_append.mpr ⟨htokens, List.pairwise_singleton _ _, fun n hn last hm => ?_⟩
    rw [List.mem_singleton.mp hm]
    exact (hlast n hn).2
  · intro t ht
    rcases List.mem_append.mp ht with ht | ht
    · exact (hlast _ (List.mem_map_of_mem ht)).1
    · rw [List.mem_singleton.mp ht]
      exact Nat.le_add_right _ _

/-- Lines are exact. The segments of a text stand one behind the other in it. A token stands on the
line of its last character, one more than there are line breaks up to there, and an error on the
line of its first character; the end marker stands on the last line of the text. So the lines never
go back, and the first one is one. -/
theorem scan_lines (source : String) :
    ∃ ss, (∀ split, Munches source.toList split ↔ split = ss) ∧
      (∀ p ∈ locate [] ss, ∃ after, p.before ++ (p.segment.chars ++ after) = source.toList) ∧
      (∃ tokens,
        (scan source).tokens =
          tokens ++ [Token.endMarker (1 + source.toList.count '\n')] ∧
        List.Forall₂
          (fun p t => Denotes p.segment t ∧
            t.line = 1 + (p.before ++ p.segment.chars).count '\n')
          ((locate [] ss).filter (·.segment.shape.isToken)) tokens) ∧
      List.Forall₂
        (fun p e => Faults p.segment e ∧ e.line = 1 + p.before.count '\n')
        ((locate [] ss).filter (·.segment.shape.isFault)) (scan source).errors ∧
      (((scan source).tokens.map Token.line).Pairwise (· ≤ ·) ∧
        ∀ t ∈ (scan source).tokens, 1 ≤ t.line) ∧
      ((scan source).errors.map LexicalError.line).Pairwise (· ≤ ·) ∧
        ∀ e ∈ (scan source).errors, 1 ≤ e.line := by
  have hplace : place 1 (segments source.toList) =
      (locate [] (segments source.toList)).map LocatedSegment.placed :=
    place_eq_map_locate [] _
  have hcandidate : ∀ p ∈ locate [] (segments source.toList),
      ∃ after, IsCandidate p.segment after := by
    intro p hp
    apply (munches_segments source.toList).exists_isCandidate
    rw [← map_segment_locate [] (segments source.toList)]
    exact List.mem_map_of_mem hp
  refine ⟨segments source.toList, fun split => munches_iff, ?_, ?_, ?_, scan_lines_ascend source⟩
  · intro p hp
    have hafter := exists_after_of_mem_locate [] _ hp
    rwa [flatMap_chars_segments] at hafter
  · rw [scan_eq, hplace]
    refine ⟨_, rfl, forall₂_locate (fun p hp htoken => ?_) (fun p hp => token?_eq_none _)⟩
    obtain ⟨after, hs⟩ := hcandidate p hp
    obtain ⟨t, ht, hdenotes⟩ := hs.denotes (1 + p.before.count '\n') htoken
    refine ⟨t, ht, hdenotes, ?_⟩
    rw [PlacedSegment.line_of_token? ht, List.count_append, ← Nat.add_assoc]
    rfl
  · rw [scan_eq, hplace]
    refine forall₂_locate (fun p hp hfault => ?_) (fun p hp => error?_eq_none_of_shape _)
    obtain ⟨after, hs⟩ := hcandidate p hp
    obtain ⟨e, he, hfaults⟩ := hs.faults (1 + p.before.count '\n') hfault
    exact ⟨e, he, hfaults, PlacedSegment.line_of_error? he⟩

end Lox
