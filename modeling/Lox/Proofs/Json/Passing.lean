import Lox.Proofs.Json.Numbers
import Lox.Proofs.Json.Strings

/-!
Values that are passed over. Whatever a value is and however deeply it is nested, passing over it
leaves exactly what comes behind it (`skipValue_append`). The skipper keeps the open brackets on a
stack and does not come back at the end of a value, so what is shown of a value, and of the values
of a bracket, is that they bring the skipper to the end of an item under the same stack
(`Part.Passes`).
-/

namespace Lox.Json

open Reader

/-! ## Gaps -/

theorem isGap_nil : IsGap [] :=
  fun _ hc => absurd hc List.not_mem_nil

section
variable {gap rest : List Char} (hgap : IsGap gap)
include hgap

theorem IsGap.all_isBlank : gap.all isBlank := by
  refine List.all_eq_true.mpr fun c hc => ?_
  have hblank := hgap c hc
  simp only [List.mem_cons, List.not_mem_nil, or_false] at hblank
  rcases hblank with rfl | rfl | rfl | rfl <;> rfl

theorem peekAfterBlanks_gap {c : Char} (hc : ¬ isBlank c) (rest : List Char) :
    peekAfterBlanks (gap ++ c :: rest) = .ok (some c, c :: rest) :=
  peekAfterBlanks_append hgap.all_isBlank hc rest

theorem peekAfterBlanks_end : peekAfterBlanks gap = .ok (none, []) := by
  have hdrop : (gap ++ []).dropWhile isBlank = [] :=
    List.dropWhile_append_of_pos (List.all_eq_true.mp hgap.all_isBlank)
  rw [List.append_nil] at hdrop
  rw [peekAfterBlanks, hdrop]
  rfl

/-- No number goes on at a gap. -/
theorem IsGap.endsNumber (hrest : EndsNumber rest) : EndsNumber (gap ++ rest) := by
  cases gap with
  | nil => exact hrest
  | cons d gap =>
    intro c hc
    cases hc
    have hblank := hgap d List.mem_cons_self
    simp only [List.mem_cons, List.not_mem_nil, or_false] at hblank
    rcases hblank with rfl | rfl | rfl | rfl <;> decide

end

theorem endsNumber_comma (rest : List Char) : EndsNumber (',' :: rest) := by
  intro c hc
  cases hc
  decide

theorem endsNumber_closing (bracket : Bracket) (rest : List Char) :
    EndsNumber (bracket.closing :: rest) := by
  intro c hc
  cases hc
  cases bracket <;> decide

/-! ## What values start with -/

/-- A character that starts a value or a key is no blank and closes no bracket. -/
def Starts (c : Char) : Prop :=
  ¬ isBlank c ∧ ∀ bracket : Bracket, c ≠ bracket.closing

theorem ne_of_isDigit {d c : Char} (hd : d.isDigit) (hc : c.isDigit = false) : d ≠ c := by
  rintro rfl
  rw [hd] at hc
  cases hc

theorem starts_of_isDigit {d : Char} (hd : d.isDigit) : Starts d :=
  ⟨not_isBlank_of_isDigit hd, fun bracket => ne_of_isDigit hd (by cases bracket <;> rfl)⟩

theorem starts_of_mem {c : Char} (hc : c ∈ ['n', 't', 'f', '-', '"', '[', '\x7b']) : Starts c := by
  simp only [List.mem_cons, List.not_mem_nil, or_false] at hc
  rcases hc with rfl | rfl | rfl | rfl | rfl | rfl | rfl <;>
    exact ⟨by decide, fun bracket => by cases bracket <;> decide⟩

theorem Numeral.exists_head {text : List Char} (h : Numeral text) :
    ∃ d more, text = d :: more ∧ d.isDigit := by
  cases h with
  | parts hwhole hfraction hexponent =>
    cases hwhole with
    | zero => exact ⟨'0', _, rfl, rfl⟩
    | @digits d ds hne h => exact ⟨d, _, rfl, h d List.mem_cons_self⟩

/-- The first character of a value tells of what kind it is. -/
structure Heads (c : Char) (value : List Char) : Prop where
  starts : Starts c
  yes : c = 't' → value = "true".toList
  no : c = 'f' → value = "false".toList
  string : c = '"' → ∃ text pieces, value = '"' :: (text ++ ['"']) ∧ StringText text pieces
  negative : c = '-' → ∃ text, value = '-' :: text ∧ Numeral text
  number : c.isDigit → Numeral value

theorem Bracket.heads_opening (bracket : Bracket) (value : List Char) :
    Heads bracket.opening value := by
  cases bracket <;>
    exact ⟨starts_of_mem (by decide), nofun, nofun, nofun, nofun, nofun⟩

theorem WellFormed.exists_head {text : List Char} (h : WellFormed .value text) :
    ∃ c more, text = c :: more ∧ Heads c text := by
  cases h with
  | word hw =>
    simp only [List.mem_cons, List.not_mem_nil, or_false] at hw
    rcases hw with rfl | rfl | rfl
    · exact ⟨'n', _, rfl, starts_of_mem (by decide), nofun, nofun, nofun, nofun, nofun⟩
    · exact ⟨'t', _, rfl, starts_of_mem (by decide), fun _ => rfl, nofun, nofun, nofun, nofun⟩
    · exact ⟨'f', _, rfl, starts_of_mem (by decide), nofun, fun _ => rfl, nofun, nofun, nofun⟩
  | number h =>
    have hnumeral := h
    obtain ⟨d, more, rfl, hd⟩ := h.exists_head
    exact ⟨d, more, rfl, starts_of_isDigit hd, fun h => absurd h (ne_of_isDigit hd rfl),
      fun h => absurd h (ne_of_isDigit hd rfl), fun h => absurd h (ne_of_isDigit hd rfl),
      fun h => absurd h (ne_of_isDigit hd rfl), fun _ => hnumeral⟩
  | negative h =>
    exact ⟨'-', _, rfl, starts_of_mem (by decide), nofun, nofun, nofun, fun _ => ⟨_, rfl, h⟩, nofun⟩
  | string h =>
    exact ⟨'"', _, rfl, starts_of_mem (by decide), nofun, nofun, fun _ => ⟨_, _, rfl, h⟩, nofun,
      nofun⟩
  | empty bracket hgap => exact ⟨_, _, rfl, bracket.heads_opening _⟩
  | @filled bracket gap items hgap hitems => exact ⟨_, _, rfl, bracket.heads_opening _⟩

/-- The values of a bracket start with one, or with its key. -/
theorem WellFormed.exists_head_items {bracket : Bracket} {text : List Char}
    (h : WellFormed (.items bracket) text) : ∃ c more, text = c :: more ∧ Starts c := by
  have hlead {lead value rest : List Char} (hlead : Lead bracket lead)
      (hvalue : WellFormed .value value) :
      ∃ c more, lead ++ (value ++ rest) = c :: more ∧ Starts c := by
    cases hlead with
    | list =>
      obtain ⟨c, more, rfl, hc⟩ := hvalue.exists_head
      exact ⟨c, more ++ rest, rfl, hc.starts⟩
    | object hkey htext hgap =>
      cases hkey with
      | key => exact ⟨'"', _, rfl, starts_of_mem (by decide)⟩
  cases h with
  | last h hvalue hgap => exact hlead h hvalue
  | more h hvalue hgap hgap' hitems => exact hlead h hvalue

/-! ## Scalars and keys -/

section
variable {gap rest text : List Char} (hgap : IsGap gap)
include hgap

theorem skipScalar_word {w : String} (hw : w ∈ ["null", "true", "false"]) :
    skipScalar (gap ++ (w.toList ++ rest)) = .ok (none, rest) := by
  simp only [List.mem_cons, List.not_mem_nil, or_false] at hw
  rcases hw with rfl | rfl | rfl
  · show skipScalar (gap ++ 'n' :: ("ull".toList ++ rest)) = _
    rw [skipScalar, bind_of_ok (peekAfterBlanks_gap hgap (by decide) _)]
    exact bind_of_ok (letters_append "null".toList rest)
  · show skipScalar (gap ++ 't' :: ("rue".toList ++ rest)) = _
    rw [skipScalar, bind_of_ok (peekAfterBlanks_gap hgap (by decide) _)]
    exact bind_of_ok (letters_append "true".toList rest)
  · show skipScalar (gap ++ 'f' :: ("alse".toList ++ rest)) = _
    rw [skipScalar, bind_of_ok (peekAfterBlanks_gap hgap (by decide) _)]
    exact bind_of_ok (letters_append "false".toList rest)

theorem skipScalar_number (h : Numeral text) (hrest : EndsNumber rest) :
    skipScalar (gap ++ (text ++ rest)) = .ok (none, rest) := by
  have hskip := skipNumber_append h hrest
  obtain ⟨d, more, rfl, hd⟩ := h.exists_head
  -- a digit is none of the characters that the other scalars and the brackets start with
  have hn : d ≠ 'n' := ne_of_isDigit hd rfl
  have ht : d ≠ 't' := ne_of_isDigit hd rfl
  have hf : d ≠ 'f' := ne_of_isDigit hd rfl
  have hminus : d ≠ '-' := ne_of_isDigit hd rfl
  have hquote : d ≠ '"' := ne_of_isDigit hd rfl
  have hlist : d ≠ '[' := ne_of_isDigit hd rfl
  have hobject : d ≠ '\x7b' := ne_of_isDigit hd rfl
  rw [List.cons_append] at hskip ⊢
  rw [skipScalar, bind_of_ok (peekAfterBlanks_gap hgap (not_isBlank_of_isDigit hd) _)]
  simp only [hd, if_true]
  exact bind_of_ok hskip

theorem skipScalar_negative (h : Numeral text) (hrest : EndsNumber rest) :
    skipScalar (gap ++ ('-' :: text ++ rest)) = .ok (none, rest) := by
  rw [List.cons_append, skipScalar, bind_of_ok (peekAfterBlanks_gap hgap (by decide) _)]
  show (skip >>= fun _ => skipNumber >>= fun _ => pure none) _ = _
  rw [bind_of_ok (skip_cons _ _), bind_of_ok (skipNumber_append h hrest)]
  rfl

theorem skipScalar_string {pieces : List Piece} (h : StringText text pieces) :
    skipScalar (gap ++ ('"' :: (text ++ ['"']) ++ rest)) = .ok (none, rest) := by
  rw [List.cons_append, List.append_assoc, List.singleton_append, skipScalar,
    bind_of_ok (peekAfterBlanks_gap hgap (by decide) _)]
  show (skip >>= fun _ => skipString >>= fun _ => pure none) _ = _
  rw [bind_of_ok (skip_cons _ _), bind_of_ok (skipString_append h _)]
  rfl

theorem skipScalar_opening (bracket : Bracket) (text : List Char) :
    skipScalar (gap ++ bracket.opening :: text) = .ok (some bracket, text) := by
  rw [skipScalar, bind_of_ok (peekAfterBlanks_gap hgap (bracket.heads_opening []).starts.1 _)]
  cases bracket <;> rfl

theorem colon_gap (rest : List Char) : colon (gap ++ ':' :: rest) = .ok ((), rest) := by
  rw [colon, bind_of_ok (peekAfterBlanks_gap hgap (by decide) _)]
  rfl

theorem skipKey_append {lead : List Char} {pieces : List Piece} (hkey : KeyText lead text)
    (htext : StringText text pieces) (rest : List Char) :
    skipKey (gap ++ (lead ++ rest)) = .ok ((), rest) := by
  cases hkey with
  | key hgap' =>
    simp only [List.cons_append, List.append_assoc, List.nil_append]
    rw [skipKey, bind_of_ok (peekAfterBlanks_gap hgap (by decide) _)]
    show (skip >>= fun _ => skipString >>= fun _ => colon) _ = _
    rw [bind_of_ok (skip_cons _ _), bind_of_ok (skipString_append htext _), colon_gap hgap']

/-! ## Closing brackets and commas -/

theorem settle_closing (afterItem : Bool) (bracket : Bracket) (outer : List Bracket)
    (rest : List Char) :
    settle afterItem (bracket :: outer) (gap ++ bracket.closing :: rest) =
      settle true outer rest := by
  have hblank : ¬ isBlank bracket.closing := by cases bracket <;> decide
  rw [settle, bind_of_ok (peekAfterBlanks_gap hgap hblank _)]
  simp only [if_true]
  rw [bind_of_ok (skip_cons _ _)]

theorem settle_comma (bracket : Bracket) (outer : List Bracket) (rest : List Char) :
    settle true (bracket :: outer) (gap ++ ',' :: rest) = .ok (bracket :: outer, rest) := by
  have hne : ',' ≠ bracket.closing := by cases bracket <;> decide
  rw [settle, bind_of_ok (peekAfterBlanks_gap hgap (by decide) _)]
  simp only [if_neg hne, if_true]
  rw [bind_of_ok (skip_cons _ _)]
  rfl

/-- Where an item starts the bracket stays open. -/
theorem settle_starts {c : Char} (hc : Starts c) (bracket : Bracket) (outer : List Bracket)
    (rest : List Char) :
    settle false (bracket :: outer) (gap ++ c :: rest) = .ok (bracket :: outer, c :: rest) := by
  rw [settle, bind_of_ok (peekAfterBlanks_gap hgap hc.1 _)]
  simp only [if_neg (hc.2 bracket), Bool.false_eq_true, if_false]
  rfl

end

/-! ## The skipper, item by item -/

/-- Goes on with an item of the innermost bracket. -/
def skipItem (steps : Nat) : List Bracket → Reader Unit
  | [] => pure ()
  | bracket :: outer => do
    if bracket = .object then skipKey
    skipNested steps (bracket :: outer)

/-- What the skipper does behind an item under the given brackets. -/
def afterItem (steps : Nat) (brackets : List Bracket) : Reader Unit := do
  skipItem steps (← settle true brackets)

theorem skipNested_succ (steps : Nat) (brackets : List Bracket) :
    skipNested (steps + 1) brackets = (do
      let open? ← skipScalar
      match open? with
      | some bracket => do skipItem steps (← settle false (bracket :: brackets))
      | none => afterItem steps brackets) := by
  have hnext : (fun brackets => match brackets with
      | [] => pure ()
      | bracket :: _ => do
        if bracket = .object then skipKey
        skipNested steps brackets) = skipItem steps := by
    funext brackets
    cases brackets <;> rfl
  rw [skipNested]
  congr 1
  funext open?
  cases open? with
  | none => exact congrArg (settle true brackets >>= ·) hnext
  | some bracket => exact congrArg (settle false (bracket :: brackets) >>= ·) hnext

/-- What a part of a text does to the skipper: in some steps, no more than it has characters, it
brings it to the end of an item. Behind a value no number may go on. -/
def Part.Passes : Part → List Char → Prop
  | .value, cs => ∃ n ≤ cs.length, ∀ steps brackets gap rest, IsGap gap → EndsNumber rest →
    skipNested (steps + n) brackets (gap ++ (cs ++ rest)) = afterItem steps brackets rest
  | .items bracket, cs => ∃ n ≤ cs.length, ∀ steps outer gap rest, IsGap gap →
    skipItem (steps + n) (bracket :: outer) (gap ++ (cs ++ rest)) = afterItem steps outer rest

section
variable {text : List Char}

/-- A scalar takes one step. -/
theorem Part.passes_of_scalar (hne : text ≠ [])
    (h : ∀ gap rest, IsGap gap → EndsNumber rest →
      skipScalar (gap ++ (text ++ rest)) = .ok (none, rest)) :
    Part.value.Passes text := by
  refine ⟨1, List.length_pos_iff.mpr hne, fun steps brackets gap rest hgap hrest => ?_⟩
  rw [skipNested_succ, bind_of_ok (h gap rest hgap hrest)]

/-- Brackets with nothing in between are opened and closed in one step. -/
theorem Part.passes_empty (bracket : Bracket) {gap : List Char} (hgap : IsGap gap) :
    Part.value.Passes (bracket.opening :: (gap ++ [bracket.closing])) := by
  refine ⟨1, by simp, fun steps brackets gap' rest hgap' hrest => ?_⟩
  rw [skipNested_succ, List.cons_append, List.append_assoc, List.singleton_append,
    bind_of_ok (skipScalar_opening hgap' bracket _)]
  exact bind_of_eq (settle_closing hgap false bracket brackets rest)

theorem Part.passes_filled {bracket : Bracket} {gap items : List Char} (hgap : IsGap gap)
    (hitems : WellFormed (.items bracket) items) (h : (Part.items bracket).Passes items) :
    Part.value.Passes (bracket.opening :: (gap ++ items)) := by
  obtain ⟨n, hn, hpass⟩ := h
  refine ⟨n + 1, ?_, fun steps brackets gap' rest hgap' hrest => ?_⟩
  · simp only [List.length_cons, List.length_append]
    omega
  · obtain ⟨c, more, rfl, hc⟩ := hitems.exists_head_items
    rw [← Nat.add_assoc, skipNested_succ, List.cons_append, List.append_assoc,
      bind_of_ok (skipScalar_opening hgap' bracket _)]
    exact (bind_of_ok (settle_starts hgap hc bracket brackets (more ++ rest))).trans
      (hpass steps brackets [] rest isGap_nil)

end

/-- In an object the key before the value is read, in a list nothing is. -/
theorem skipItem_lead {bracket : Bracket} {gap lead : List Char} (hgap : IsGap gap)
    (hlead : Lead bracket lead) (steps : Nat) (outer : List Bracket) (rest : List Char) :
    ∃ gap', IsGap gap' ∧ skipItem steps (bracket :: outer) (gap ++ (lead ++ rest)) =
      skipNested steps (bracket :: outer) (gap' ++ rest) := by
  cases hlead with
  | list => exact ⟨gap, hgap, rfl⟩
  | @object key text gap' pieces hkey htext hgap' =>
    refine ⟨gap', hgap', ?_⟩
    rw [List.append_assoc]
    exact bind_of_ok (skipKey_append hgap hkey htext (gap' ++ rest))

section
variable {bracket : Bracket} {lead value gap : List Char} (hlead : Lead bracket lead)
  (hvalue : Part.value.Passes value) (hgap : IsGap gap)
include hlead hvalue hgap

theorem Part.passes_last :
    (Part.items bracket).Passes (lead ++ (value ++ (gap ++ [bracket.closing]))) := by
  obtain ⟨n, hn, hpass⟩ := hvalue
  refine ⟨n, ?_, fun steps outer gap₀ rest hgap₀ => ?_⟩
  · simp only [List.length_append]
    omega
  · obtain ⟨gap₁, hgap₁, hitem⟩ := skipItem_lead hgap₀ hlead (steps + n) outer
      (value ++ (gap ++ bracket.closing :: rest))
    simp only [List.append_assoc, List.singleton_append]
    rw [hitem, hpass steps _ gap₁ _ hgap₁ (hgap.endsNumber (endsNumber_closing bracket rest))]
    exact bind_of_eq (settle_closing hgap true bracket outer rest)

theorem Part.passes_more {gap' items : List Char} (hgap' : IsGap gap')
    (hitems : (Part.items bracket).Passes items) :
    (Part.items bracket).Passes (lead ++ (value ++ (gap ++ ',' :: (gap' ++ items)))) := by
  obtain ⟨n, hn, hpass⟩ := hvalue
  obtain ⟨m, hm, hpassItems⟩ := hitems
  refine ⟨m + n, ?_, fun steps outer gap₀ rest hgap₀ => ?_⟩
  · simp only [List.length_append, List.length_cons]
    omega
  · obtain ⟨gap₁, hgap₁, hitem⟩ := skipItem_lead hgap₀ hlead (steps + m + n) outer
      (value ++ (gap ++ ',' :: (gap' ++ (items ++ rest))))
    simp only [List.append_assoc, List.cons_append]
    rw [← Nat.add_assoc, hitem,
      hpass (steps + m) _ gap₁ _ hgap₁ (hgap.endsNumber (endsNumber_comma _))]
    exact (bind_of_ok (settle_comma hgap bracket outer _)).trans
      (hpassItems steps outer gap' rest hgap')

end

/-- Induction on the grammar. -/
theorem WellFormed.passes {part : Part} {text : List Char} (h : WellFormed part text) :
    part.Passes text := by
  induction h with
  | word hw =>
    refine Part.passes_of_scalar ?_ fun gap rest hgap hrest => skipScalar_word hgap hw
    simp only [List.mem_cons, List.not_mem_nil, or_false] at hw
    rcases hw with rfl | rfl | rfl <;> decide
  | number h =>
    have hne := h.exists_head
    refine Part.passes_of_scalar ?_ fun gap rest hgap hrest => skipScalar_number hgap h hrest
    obtain ⟨d, more, rfl, hd⟩ := hne
    exact List.cons_ne_nil d more
  | negative h =>
    exact Part.passes_of_scalar (List.cons_ne_nil _ _)
      fun gap rest hgap hrest => skipScalar_negative hgap h hrest
  | string h =>
    exact Part.passes_of_scalar (List.cons_ne_nil _ _)
      fun gap rest hgap hrest => skipScalar_string hgap h
  | empty bracket hgap => exact Part.passes_empty bracket hgap
  | filled hgap hitems ih => exact Part.passes_filled hgap hitems ih
  | last hlead hvalue hgap ih => exact Part.passes_last hlead ih hgap
  | more hlead hvalue hgap hgap' hitems ih ihItems =>
    exact Part.passes_more hlead ih hgap hgap' ihItems

/-- Passing over a value leaves exactly what comes behind it. -/
theorem skipValue_append {gap value rest : List Char} (hgap : IsGap gap)
    (hvalue : WellFormed .value value) (hrest : EndsNumber rest) :
    skipValue (gap ++ (value ++ rest)) = .ok ((), rest) := by
  obtain ⟨n, hn, hpass⟩ := hvalue.passes
  have hsteps : (gap ++ (value ++ rest)).length + 1 =
      ((gap ++ (value ++ rest)).length + 1 - n) + n := by
    simp only [List.length_append]
    omega
  show skipNested ((gap ++ (value ++ rest)).length + 1) [] _ = _
  rw [hsteps, hpass _ [] gap rest hgap hrest]
  rfl

end Lox.Json
