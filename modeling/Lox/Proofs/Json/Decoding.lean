import Lox.Proofs.Json.Decimals
import Lox.Proofs.Json.Passing

/-!
What JSON texts mean. The grammar is told once more, with what each form of text stands for
(`Means`), and a reader for any JSON text is set against it: it decodes every text to what the text
means (`decode?_of_means`), so no text means two things (`Means.unique`). Whole numbers are exact,
of any size; other numbers are kept as they are written.
-/

namespace Lox.Json

open Reader

/-- What a JSON text stands for. Members of an object keep their order. -/
inductive Datum
  | null
  | boolean (b : Bool)
  | integer (n : Nat)
  /-- A number with a sign, a fraction or an exponent, as it is written. -/
  | decimal (text : String)
  | text (s : String)
  | list (items : List Datum)
  | object (members : List (String × Datum))
deriving Inhabited

/-! ## Texts and what they mean -/

/-- What stands between commas in a bracket. -/
@[reducible] def Bracket.Item : Bracket → Type
  | list => Datum
  | object => String × Datum

def Bracket.collect : (bracket : Bracket) → List bracket.Item → Datum
  | list, items => .list items
  | object, members => .object members

@[reducible] def Part.Content : Part → Type
  | value => Datum
  | items bracket => List bracket.Item

/-- What stands before a value in a bracket, and the item that it makes of the value. -/
inductive Leads : (bracket : Bracket) → List Char → (Datum → bracket.Item) → Prop
  | list : Leads .list [] fun d => d
  | object {lead text gap : List Char} {key : String} (hlead : KeyText lead text)
    (hkey : Denotes text key) (hgap : IsGap gap) : Leads .object (lead ++ gap) fun d => (key, d)

/-- The texts of values, and of the values of a bracket, with what they stand for. -/
inductive Means : (part : Part) → List Char → part.Content → Prop
  | null : Means .value "null".toList Datum.null
  | boolean (b : Bool) : Means .value (if b then "true" else "false").toList (Datum.boolean b)
  | integer {text : List Char} (h : Whole text) :
    Means .value text (Datum.integer (Nat.ofDigitChars 10 text 0))
  | decimal {text : List Char} (h : IsDecimal text) :
    Means .value text (Datum.decimal (String.ofList text))
  | negative {text : List Char} (h : Numeral text) :
    Means .value ('-' :: text) (Datum.decimal (String.ofList ('-' :: text)))
  | text {text : List Char} {s : String} (h : Denotes text s) :
    Means .value ('"' :: (text ++ ['"'])) (Datum.text s)
  | empty (bracket : Bracket) {gap : List Char} (hgap : IsGap gap) :
    Means .value (bracket.opening :: (gap ++ [bracket.closing])) (bracket.collect [])
  | filled {bracket : Bracket} {gap text : List Char} {items : List bracket.Item}
    (hgap : IsGap gap) (hitems : Means (.items bracket) text items) :
    Means .value (bracket.opening :: (gap ++ text)) (bracket.collect items)
  | last {bracket : Bracket} {lead value gap : List Char} {make : Datum → bracket.Item} {d : Datum}
    (hlead : Leads bracket lead make) (hvalue : Means .value value d) (hgap : IsGap gap) :
    Means (.items bracket) (lead ++ (value ++ (gap ++ [bracket.closing]))) [make d]
  | more {bracket : Bracket} {lead value gap gap' text : List Char} {make : Datum → bracket.Item}
    {d : Datum} {items : List bracket.Item} (hlead : Leads bracket lead make)
    (hvalue : Means .value value d) (hgap : IsGap gap) (hgap' : IsGap gap')
    (hitems : Means (.items bracket) text items) :
    Means (.items bracket) (lead ++ (value ++ (gap ++ ',' :: (gap' ++ text)))) (make d :: items)

theorem Leads.lead {bracket : Bracket} {lead : List Char} {make : Datum → bracket.Item}
    (h : Leads bracket lead make) : Lead bracket lead := by
  cases h with
  | list => exact .list
  | object hlead hkey hgap =>
    obtain ⟨pieces, htext, -⟩ := hkey
    exact .object hlead htext hgap

theorem Means.wellFormed {part : Part} {text : List Char} {content : part.Content}
    (h : Means part text content) : WellFormed part text := by
  induction h with
  | null => exact .word (by decide)
  | boolean b =>
    cases b with
    | true => exact .word (w := "true") (by decide)
    | false => exact .word (w := "false") (by decide)
  | integer h => exact .number h.numeral
  | decimal h => exact .number h.1
  | negative h => exact .negative h
  | text h =>
    obtain ⟨pieces, htext, -⟩ := h
    exact .string htext
  | empty bracket hgap => exact .empty bracket hgap
  | filled hgap hitems ih => exact .filled hgap ih
  | last hlead hvalue hgap ih => exact .last hlead.lead ih hgap
  | more hlead hvalue hgap hgap' hitems ih ih' => exact .more hlead.lead ih hgap hgap' ih'

/-! ## The reader -/

def Datum.ofNumeral (text : List Char) : Datum :=
  if text.all Char.isDigit then .integer (Nat.ofDigitChars 10 text 0)
  else .decimal (String.ofList text)

namespace Reader

/-- Passes a number, perhaps with a sign. -/
def skipSigned : Reader Unit := do
  if (← peek) = some '-' then skip
  skipNumber

/-- A number with all that belongs to it. -/
def numeral : Reader Datum := do
  let text ← get
  skipSigned
  return .ofNumeral (text.take (text.length - (← get).length))

/-- What stands before a value in a bracket. -/
def leading : (bracket : Bracket) → Reader (Datum → bracket.Item)
  | .list => return fun d => d
  | .object => do
    match ← peekAfterBlanks with
    | some '"' =>
      skip
      let key ← string
      colon
      return fun d => (key, d)
    | _ => fail .expectedKey 1

/-- The items of a bracket up to its end, of which there is at least one. Each takes a character, so
there are no more items than characters. -/
def items (bracket : Bracket) (value : Reader Datum) : Nat → Reader (List bracket.Item)
  | 0 => fail bracket.unfinished 0
  | steps + 1 => do
    let make ← leading bracket
    let item := make (← value)
    match ← peekAfterBlanks with
    | none => fail bracket.unfinished 0
    | some c =>
      if c = bracket.closing then skip; return [item]
      else if c = ',' then skip; return item :: (← items bracket value steps)
      else fail bracket.unseparated 1

/-- A bracket, after its opening. -/
def enclosed (bracket : Bracket) (value : Reader Datum) (steps : Nat) : Reader Datum := do
  if (← peekAfterBlanks) = some bracket.closing then skip; return bracket.collect []
  else return bracket.collect (← items bracket value steps)

/-- A value. It is nested less deeply than it has characters. -/
def datum : Nat → Reader Datum
  | 0 => fail .endInValue 0
  | steps + 1 => do
    match ← peekAfterBlanks with
    | none => fail .endInValue 0
    | some 'n' => letters "null".toList; return .null
    | some 't' => letters "true".toList; return .boolean true
    | some 'f' => letters "false".toList; return .boolean false
    | some '"' => skip; return .text (← string)
    | some '[' => skip; enclosed .list (datum steps) steps
    | some '\x7b' => skip; enclosed .object (datum steps) steps
    | some c => if c = '-' ∨ c.isDigit then numeral else fail .expectedValue 1

end Reader

/-- What a text of one value stands for; none if it is no such text. -/
def decode? (text : String) : Option Datum :=
  match datum text.toList.length text.toList with
  | .ok (d, rest) => if rest.all isBlank then some d else none
  | .error _ => none

/-! ## Scalars -/

theorem Datum.ofNumeral_whole {text : List Char} (h : Whole text) :
    Datum.ofNumeral text = .integer (Nat.ofDigitChars 10 text 0) :=
  if_pos (List.all_eq_true.mpr h.isDigit)

theorem Datum.ofNumeral_decimal {text : List Char} (h : ∃ c ∈ text, ¬ c.isDigit) :
    Datum.ofNumeral text = .decimal (String.ofList text) := by
  obtain ⟨c, hc, hdigit⟩ := h
  exact if_neg fun hall => hdigit (List.all_eq_true.mp hall c hc)

namespace Reader

section
variable {body text gap rest : List Char}

theorem skipSigned_append (h : Numeral body) (htext : text = body ∨ text = '-' :: body)
    (hrest : EndsNumber rest) : skipSigned (text ++ rest) = .ok ((), rest) := by
  have hskip := skipNumber_append h hrest
  rcases htext with rfl | rfl
  · obtain ⟨d, more, rfl, hd⟩ := h.exists_head
    have hminus : d ≠ '-' := ne_of_isDigit hd rfl
    rw [skipSigned, List.cons_append, bind_of_ok (peek_cons _ _)]
    simp only [Option.some.injEq, hminus, if_false]
    exact hskip
  · rw [skipSigned, List.cons_append, bind_of_ok (peek_cons _ _)]
    simp only [if_true]
    rw [bind_of_ok (skip_cons _ _), hskip]

theorem numeral_append (h : Numeral body) (htext : text = body ∨ text = '-' :: body)
    (hrest : EndsNumber rest) : numeral (text ++ rest) = .ok (.ofNumeral text, rest) := by
  have hget (cs : List Char) : (get : Reader (List Char)) cs = .ok (cs, cs) := rfl
  rw [numeral, bind_of_ok (hget _), bind_of_ok (skipSigned_append h htext hrest),
    bind_of_ok (hget _)]
  simp [pure_eq]

theorem datum_number (hgap : IsGap gap) (h : Numeral body)
    (htext : text = body ∨ text = '-' :: body) (hrest : EndsNumber rest) (steps : Nat) :
    datum (steps + 1) (gap ++ (text ++ rest)) = .ok (.ofNumeral text, rest) := by
  have hnumeral := numeral_append h htext hrest
  rcases htext with rfl | rfl
  · obtain ⟨d, more, rfl, hd⟩ := h.exists_head
    have hn : d ≠ 'n' := ne_of_isDigit hd rfl
    have ht : d ≠ 't' := ne_of_isDigit hd rfl
    have hf : d ≠ 'f' := ne_of_isDigit hd rfl
    have hquote : d ≠ '"' := ne_of_isDigit hd rfl
    have hlist : d ≠ '[' := ne_of_isDigit hd rfl
    have hobject : d ≠ '\x7b' := ne_of_isDigit hd rfl
    rw [List.cons_append] at hnumeral ⊢
    rw [datum, bind_of_ok (peekAfterBlanks_gap hgap (not_isBlank_of_isDigit hd) _)]
    simp only [hd, or_true, if_true]
    exact hnumeral
  · rw [List.cons_append, datum, bind_of_ok (peekAfterBlanks_gap hgap (by decide) _)]
    exact hnumeral

theorem datum_null (hgap : IsGap gap) (steps : Nat) :
    datum (steps + 1) (gap ++ ("null".toList ++ rest)) = .ok (.null, rest) := by
  show datum (steps + 1) (gap ++ 'n' :: ("ull".toList ++ rest)) = _
  rw [datum, bind_of_ok (peekAfterBlanks_gap hgap (by decide) _)]
  exact bind_of_ok (letters_append "null".toList rest)

theorem datum_boolean (hgap : IsGap gap) (b : Bool) (steps : Nat) :
    datum (steps + 1) (gap ++ ((if b then "true" else "false").toList ++ rest)) =
      .ok (.boolean b, rest) := by
  cases b with
  | true =>
    show datum (steps + 1) (gap ++ 't' :: ("rue".toList ++ rest)) = _
    rw [datum, bind_of_ok (peekAfterBlanks_gap hgap (by decide) _)]
    exact bind_of_ok (letters_append "true".toList rest)
  | false =>
    show datum (steps + 1) (gap ++ 'f' :: ("alse".toList ++ rest)) = _
    rw [datum, bind_of_ok (peekAfterBlanks_gap hgap (by decide) _)]
    exact bind_of_ok (letters_append "false".toList rest)

theorem datum_text {s : String} (hgap : IsGap gap) (h : Denotes text s) (steps : Nat) :
    datum (steps + 1) (gap ++ ('"' :: (text ++ ['"']) ++ rest)) = .ok (.text s, rest) := by
  rw [List.cons_append, List.append_assoc, List.singleton_append, datum,
    bind_of_ok (peekAfterBlanks_gap hgap (by decide) _)]
  show (skip >>= fun _ => string >>= fun s => pure (Datum.text s)) _ = _
  rw [bind_of_ok (skip_cons _ _), bind_of_ok (string_of_denotes h _)]
  rfl

theorem datum_opening (hgap : IsGap gap) (bracket : Bracket) (text : List Char) (steps : Nat) :
    datum (steps + 1) (gap ++ bracket.opening :: text) =
      enclosed bracket (datum steps) steps text := by
  rw [datum, bind_of_ok (peekAfterBlanks_gap hgap (bracket.heads_opening []).starts.1 _)]
  cases bracket <;> rfl

/-! ## Brackets -/

variable {bracket : Bracket} {value : Reader Datum} {steps : Nat}

theorem enclosed_empty (hgap : IsGap gap) :
    enclosed bracket value steps (gap ++ bracket.closing :: rest) =
      .ok (bracket.collect [], rest) := by
  have hblank : ¬ isBlank bracket.closing := by cases bracket <;> decide
  rw [enclosed, bind_of_ok (peekAfterBlanks_gap hgap hblank _)]
  simp only [if_true]
  rw [bind_of_ok (skip_cons _ _)]
  rfl

theorem enclosed_filled {c : Char} {items : List bracket.Item} (hgap : IsGap gap) (hc : Starts c)
    (h : Reader.items bracket value steps (c :: text) = .ok (items, rest)) :
    enclosed bracket value steps (gap ++ c :: text) = .ok (bracket.collect items, rest) := by
  rw [enclosed, bind_of_ok (peekAfterBlanks_gap hgap hc.1 _)]
  simp only [Option.some.injEq, hc.2 bracket, if_false]
  rw [bind_of_ok h]
  rfl

/-- The blanks ahead of a value belong to what is around it. -/
theorem leading_append {lead : List Char} {make : Datum → bracket.Item} (hgap : IsGap gap)
    (hlead : Leads bracket lead make) (rest : List Char) : ∃ gap', IsGap gap' ∧
      leading bracket (gap ++ (lead ++ rest)) = .ok (make, gap' ++ rest) := by
  cases hlead with
  | list => exact ⟨gap, hgap, rfl⟩
  | @object lead text gap' key hlead hkey hgap' =>
    refine ⟨gap', hgap', ?_⟩
    cases hlead with
    | key hgap'' =>
      simp only [List.cons_append, List.append_assoc, List.nil_append]
      rw [leading, bind_of_ok (peekAfterBlanks_gap hgap (by decide) _)]
      show (skip >>= fun _ => string >>= fun key => colon >>= fun _ => pure fun d => (key, d)) _ = _
      rw [bind_of_ok (skip_cons _ _), bind_of_ok (string_of_denotes hkey _),
        bind_of_ok (colon_gap hgap'' _)]
      rfl

/-- An item, when what comes behind its value is a comma or the end of the bracket. -/
theorem items_item {lead : List Char} {make : Datum → bracket.Item} {d : Datum}
    (hgap : IsGap gap) (hlead : Leads bracket lead make)
    (hvalue : ∀ gap, IsGap gap → value (gap ++ text) = .ok (d, rest)) :
    Reader.items bracket value (steps + 1) (gap ++ (lead ++ text)) = (do
      match ← peekAfterBlanks with
      | none => fail bracket.unfinished 0
      | some c =>
        if c = bracket.closing then skip; return [make d]
        else if c = ',' then skip; return make d :: (← Reader.items bracket value steps)
        else fail bracket.unseparated 1 : Reader (List bracket.Item)) rest := by
  obtain ⟨gap', hgap', hleading⟩ := leading_append hgap hlead text
  rw [Reader.items, bind_of_ok hleading, bind_of_ok (hvalue gap' hgap')]

end

end Reader

/-! ## The reader on all texts -/

/-- The reader gives what the text means, if it may take as many steps as the text has characters.
Behind a value no number may go on. -/
def Part.Decodes : (part : Part) → List Char → part.Content → Prop
  | .value, cs, d => ∀ steps gap rest, cs.length ≤ steps → IsGap gap → EndsNumber rest →
    datum steps (gap ++ (cs ++ rest)) = .ok (d, rest)
  | .items bracket, cs, content => ∀ steps steps' gap rest, cs.length ≤ steps →
    cs.length ≤ steps' → IsGap gap →
    Reader.items bracket (datum steps) steps' (gap ++ (cs ++ rest)) = .ok (content, rest)

section
variable {text : List Char} {bracket : Bracket}

/-- A text that is not empty leaves the reader a step. -/
theorem Part.decodes_value {d : Datum} (hne : text ≠ [])
    (h : ∀ steps gap rest, text.length ≤ steps + 1 → IsGap gap → EndsNumber rest →
      datum (steps + 1) (gap ++ (text ++ rest)) = .ok (d, rest)) :
    Part.value.Decodes text d := by
  intro steps gap rest hsteps hgap hrest
  obtain ⟨n, rfl⟩ := Nat.exists_eq_add_of_le' (Nat.le_trans (List.length_pos_iff.mpr hne) hsteps)
  exact h n gap rest hsteps hgap hrest

theorem Part.decodes_empty {gap : List Char} (hgap : IsGap gap) :
    Part.value.Decodes (bracket.opening :: (gap ++ [bracket.closing])) (bracket.collect []) := by
  refine decodes_value (List.cons_ne_nil _ _) fun steps gap' rest _ hgap' _ => ?_
  rw [List.cons_append, List.append_assoc, List.singleton_append, datum_opening hgap',
    enclosed_empty hgap]

theorem Part.decodes_filled {gap : List Char} {items : List bracket.Item} (hgap : IsGap gap)
    (hitems : Means (.items bracket) text items) (h : (Part.items bracket).Decodes text items) :
    Part.value.Decodes (bracket.opening :: (gap ++ text)) (bracket.collect items) := by
  refine decodes_value (List.cons_ne_nil _ _) fun steps gap' rest hsteps hgap' _ => ?_
  rw [List.length_cons, List.length_append] at hsteps
  -- the opening takes one step and one character, so the steps that are left cover the items
  have hread := h steps steps [] rest (by omega) (by omega) isGap_nil
  obtain ⟨c, more, rfl, hc⟩ := hitems.wellFormed.exists_head_items
  rw [List.cons_append, List.append_assoc, datum_opening hgap', List.cons_append]
  exact enclosed_filled hgap hc hread

section
variable {lead value gap : List Char} {make : Datum → bracket.Item} {d : Datum}
  (hlead : Leads bracket lead make) (hvalue : Part.value.Decodes value d) (hgap : IsGap gap)
include hlead hvalue hgap

theorem Part.decodes_last :
    (Part.items bracket).Decodes (lead ++ (value ++ (gap ++ [bracket.closing]))) [make d] := by
  intro steps steps' gap' rest hsteps hsteps' hgap'
  simp only [List.length_append, List.length_singleton] at hsteps hsteps'
  obtain ⟨n, rfl⟩ := Nat.exists_eq_add_of_le' (show 1 ≤ steps' by omega)
  have hblank : ¬ isBlank bracket.closing := by cases bracket <;> decide
  -- a number at the end of the bracket must not go on behind it
  have hend : EndsNumber (gap ++ bracket.closing :: rest) :=
    hgap.endsNumber (endsNumber_closing bracket rest)
  simp only [List.append_assoc, List.singleton_append]
  rw [items_item hgap' hlead fun gap hgap => hvalue steps gap _ (by omega) hgap hend,
    bind_of_ok (peekAfterBlanks_gap hgap hblank _)]
  simp only [if_true]
  rw [bind_of_ok (skip_cons _ _)]
  rfl

theorem Part.decodes_more {gap' : List Char} {items : List bracket.Item} (hgap' : IsGap gap')
    (hitems : (Part.items bracket).Decodes text items) : (Part.items bracket).Decodes
      (lead ++ (value ++ (gap ++ ',' :: (gap' ++ text)))) (make d :: items) := by
  intro steps steps' gap'' rest hsteps hsteps' hgap''
  simp only [List.length_append, List.length_cons] at hsteps hsteps'
  obtain ⟨n, rfl⟩ := Nat.exists_eq_add_of_le' (show 1 ≤ steps' by omega)
  have hne : ',' ≠ bracket.closing := by cases bracket <;> decide
  have hend : EndsNumber (gap ++ ',' :: (gap' ++ (text ++ rest))) :=
    hgap.endsNumber (endsNumber_comma _)
  simp only [List.append_assoc, List.cons_append]
  rw [items_item hgap'' hlead fun gap hgap => hvalue steps gap _ (by omega) hgap hend,
    bind_of_ok (peekAfterBlanks_gap hgap (by decide) _)]
  simp only [if_neg hne, if_true]
  rw [bind_of_ok (skip_cons _ _),
    bind_of_ok (hitems steps n gap' rest (by omega) (by omega) hgap')]
  rfl

end

end

/-- The induction is on the text, with the values of a bracket as a part of their own. -/
theorem Means.decodes {part : Part} {text : List Char} {content : part.Content}
    (h : Means part text content) : part.Decodes text content := by
  induction h with
  | null =>
    exact Part.decodes_value (by decide) fun steps gap rest _ hgap _ => datum_null hgap steps
  | boolean b =>
    refine Part.decodes_value ?_ fun steps gap rest _ hgap _ => datum_boolean hgap b steps
    cases b <;> decide
  | integer h =>
    refine Part.decodes_value ?_ fun steps gap rest _ hgap hrest => ?_
    · obtain ⟨d, more, rfl, -⟩ := h.numeral.exists_head
      exact List.cons_ne_nil _ _
    · rw [datum_number hgap h.numeral (.inl rfl) hrest, Datum.ofNumeral_whole h]
  | decimal h =>
    refine Part.decodes_value ?_ fun steps gap rest _ hgap hrest => ?_
    · obtain ⟨d, more, rfl, -⟩ := h.1.exists_head
      exact List.cons_ne_nil _ _
    · rw [datum_number hgap h.1 (.inl rfl) hrest, Datum.ofNumeral_decimal h.2]
  | negative h =>
    refine Part.decodes_value (List.cons_ne_nil _ _) fun steps gap rest _ hgap hrest => ?_
    rw [datum_number hgap h (.inr rfl) hrest,
      Datum.ofNumeral_decimal ⟨'-', List.mem_cons_self, by decide⟩]
  | text h =>
    exact Part.decodes_value (List.cons_ne_nil _ _) fun steps gap rest _ hgap _ =>
      datum_text hgap h steps
  | empty bracket hgap => exact Part.decodes_empty hgap
  | filled hgap hitems ih => exact Part.decodes_filled hgap hitems ih
  | last hlead hvalue hgap ih => exact Part.decodes_last hlead ih hgap
  | more hlead hvalue hgap hgap' hitems ih ih' => exact Part.decodes_more hlead ih hgap hgap' ih'

/-- Any text of JSON, with blanks around it or not, is decoded to what it means. -/
theorem decode?_of_means {text gap gap' : List Char} {d : Datum} (h : Means .value text d)
    (hgap : IsGap gap) (hgap' : IsGap gap') :
    decode? (String.ofList (gap ++ (text ++ gap'))) = some d := by
  have hend : EndsNumber (gap' ++ []) := hgap'.endsNumber fun _ hc => nomatch hc
  rw [List.append_nil] at hend
  have hread := h.decodes (gap ++ (text ++ gap')).length gap gap' (by simp; omega) hgap hend
  rw [decode?, String.toList_ofList, hread]
  exact if_pos hgap'.all_isBlank

theorem Means.unique {text : List Char} {d d' : Datum} (h : Means .value text d)
    (h' : Means .value text d') : d = d' :=
  Option.some.inj ((decode?_of_means h isGap_nil isGap_nil).symm.trans
    (decode?_of_means h' isGap_nil isGap_nil))

end Lox.Json
