import Lox.Proofs.Json.Passing
import Lox.Settings.File

/-!
Fields read from values of any form. A value that spells what the settings have for a field is taken
into the draft; every other value is an error, and nothing behind the value is touched
(`outcome_readField`).
-/

namespace Lox.Json

/-- The text is a way to write the value. Only values that settings are made of are considered. -/
def Spells (value : List Char) : Json → Prop
  | .integer n =>
    (∀ c ∈ value, c.isDigit) ∧ Nat.ofDigitChars 10 value 0 = n ∧ n < UInt64.size
  | .boolean b => value = (if b then "true" else "false").toList
  | .text s => ∃ raw, value = '"' :: (raw ++ ['"']) ∧ Denotes raw s
  | _ => False

end Lox.Json

namespace Lox.Settings

open Json Json.Reader

def value (s : Settings) : Field → Json
  | .maxDepth => .integer s.maxDepth
  | .printTokens => .boolean s.printTokens
  | .printAst => .boolean s.printAst
  | .prompt => .text s.prompt
  | .debug => .boolean s.debug

theorem ext_value {s s' : Settings} (h : ∀ f, s.value f = s'.value f) : s = s' := by
  have hdepth := Json.integer.inj (h .maxDepth)
  have htokens := Json.boolean.inj (h .printTokens)
  have hast := Json.boolean.inj (h .printAst)
  have hprompt := Json.text.inj (h .prompt)
  have hdebug := Json.boolean.inj (h .debug)
  cases s
  cases s'
  simp_all

/-! ## Drafts -/

namespace Draft

/-- The draft with a field from the settings. -/
def take (s : Settings) (d : Draft) : Field → Draft
  | .maxDepth => { d with maxDepth := some s.maxDepth }
  | .printTokens => { d with printTokens := some s.printTokens }
  | .printAst => { d with printAst := some s.printAst }
  | .prompt => { d with prompt := some s.prompt }
  | .debug => { d with debug := some s.debug }

def value? (d : Draft) : Field → Option Json
  | .maxDepth => d.maxDepth.map fun n => .integer n
  | .printTokens => d.printTokens.map .boolean
  | .printAst => d.printAst.map .boolean
  | .prompt => d.prompt.map .text
  | .debug => d.debug.map .boolean

theorem has_take_self (s : Settings) (d : Draft) (f : Field) : (d.take s f).has f = true := by
  cases f <;> rfl

theorem value?_take_self (s : Settings) (d : Draft) (f : Field) :
    (d.take s f).value? f = some (s.value f) := by
  cases f <;> rfl

section
variable (s : Settings) (d : Draft) {f g : Field} (h : g ≠ f)
include h

theorem has_take_of_ne : (d.take s f).has g = d.has g := by
  cases f <;> cases g <;> first | rfl | exact absurd rfl h

theorem value?_take_of_ne : (d.take s f).value? g = d.value? g := by
  cases f <;> cases g <;> first | rfl | exact absurd rfl h

end

/-- What is missing has its standard value. -/
theorem complete_value (d : Draft) (f : Field) :
    d.complete.value f = (d.value? f).getD (standard.value f) := by
  cases f with
  | maxDepth => cases h : d.maxDepth <;> simp [complete, value?, Settings.value, h]
  | printTokens => cases h : d.printTokens <;> simp [complete, value?, Settings.value, h]
  | printAst => cases h : d.printAst <;> simp [complete, value?, Settings.value, h]
  | prompt => cases h : d.prompt <;> simp [complete, value?, Settings.value, h]
  | debug => cases h : d.debug <;> simp [complete, value?, Settings.value, h]

end Draft

/-! ## Scalars of the wanted type -/

theorem exists_failType {α : Type} (wanted : String) (text : List Char) :
    ∃ flaw, (failType wanted : Reader α) text = .error flaw := by
  unfold failType
  cases hread : readFound text with
  | ok r => exact ⟨_, bind_of_ok hread⟩
  | error flaw => exact ⟨flaw, bind_of_error hread⟩

/-- Only natural numbers are depths. -/
theorem outcome_depth {isPositive : Bool} {text rest : List Char} {P : Nat → Prop}
    (h : ∀ n rest', number isPositive text = .ok (.natural n, rest') ↔ P n ∧ rest = rest') :
    Outcome P rest ((number isPositive >>= depthOfNumber) text) := by
  cases hread : number isPositive text with
  | error flaw =>
    rw [bind_of_error hread]
    exact .error fun n hn => nomatch hread.symm.trans ((h n rest).mpr ⟨hn, rfl⟩)
  | ok r =>
    obtain ⟨x, rest'⟩ := r
    rw [bind_of_ok hread]
    cases x with
    | natural n =>
      obtain ⟨hn, rfl⟩ := (h n rest').mp hread
      refine .ok fun m => ⟨fun hm => ?_, fun heq => heq ▸ hn⟩
      cases hread.symm.trans ((h m rest).mpr ⟨hm, rfl⟩)
      rfl
    | negative n => exact .error fun m hm => nomatch hread.symm.trans ((h m rest).mpr ⟨hm, rfl⟩)
    | float x => exact .error fun m hm => nomatch hread.symm.trans ((h m rest).mpr ⟨hm, rfl⟩)

/-- What no value is spelled by is an error. -/
theorem outcome_failType {α : Type} {P : α → Prop} {wanted : String} (text rest : List Char)
    (h : ∀ a, ¬P a) : Outcome P rest ((failType wanted : Reader α) text) := by
  obtain ⟨flaw, hfail⟩ := exists_failType (α := α) wanted text
  rw [hfail]
  exact .error h

theorem readFlag_word {gap : List Char} (hgap : IsGap gap) (b : Bool) (rest : List Char) :
    readFlag (gap ++ ((if b then "true" else "false").toList ++ rest)) = .ok (b, rest) := by
  cases b with
  | true =>
    show readFlag (gap ++ 't' :: ("rue".toList ++ rest)) = _
    rw [readFlag, bind_of_ok (peekAfterBlanks_gap hgap (by decide) _)]
    exact bind_of_ok (letters_append "true".toList rest)
  | false =>
    show readFlag (gap ++ 'f' :: ("alse".toList ++ rest)) = _
    rw [readFlag, bind_of_ok (peekAfterBlanks_gap hgap (by decide) _)]
    exact bind_of_ok (letters_append "false".toList rest)

section
variable {value gap rest : List Char} (hvalue : WellFormed .value value) (hgap : IsGap gap)
include hvalue hgap

/-- A depth is spelled by digits alone, so neither a sign nor a fraction makes one. -/
theorem outcome_readDepth (hrest : EndsNumber rest) :
    Outcome (fun n => Spells value (.integer n)) rest (readDepth (gap ++ (value ++ rest))) := by
  obtain ⟨c, more, rfl, hhead⟩ := hvalue.exists_head
  rw [List.cons_append, readDepth, bind_of_ok (peekAfterBlanks_gap hgap hhead.starts.1 _)]
  by_cases hminus : c = '-'
  · obtain ⟨text, htext, hnumeral⟩ := hhead.negative hminus
    obtain ⟨rfl, rfl⟩ := List.cons.inj htext
    have hne (n : Nat) : ¬Spells ('-' :: more) (.integer n) :=
      fun h => absurd (h.1 '-' List.mem_cons_self) (by decide)
    show Outcome _ rest ((skip >>= fun _ => number false >>= depthOfNumber) _)
    rw [bind_of_ok (skip_cons _ _)]
    exact outcome_depth fun n rest' =>
      iff_of_false (number_false_ne_natural hnumeral hrest n rest') fun h => hne n h.1
  · by_cases hdigit : c.isDigit
    · simp only [hdigit, if_true]
      exact outcome_depth fun n rest' => (number_eq_natural_iff (hhead.number hdigit) hrest).trans
        (by simp only [Spells, and_assoc])
    · have hne (n : Nat) : ¬Spells (c :: more) (.integer n) :=
        fun h => hdigit (h.1 c List.mem_cons_self)
      simp only [hdigit]
      exact outcome_failType _ _ hne

theorem outcome_readFlag :
    Outcome (fun b => Spells value (.boolean b)) rest (readFlag (gap ++ (value ++ rest))) := by
  obtain ⟨c, more, hcons, hhead⟩ := hvalue.exists_head
  by_cases ht : c = 't'
  · have hread := readFlag_word hgap true rest
    rw [hhead.yes ht]
    exact hread ▸ .ok fun b => by cases b <;> simp [Spells]
  · by_cases hf : c = 'f'
    · have hread := readFlag_word hgap false rest
      rw [hhead.no hf]
      exact hread ▸ .ok fun b => by cases b <;> simp [Spells]
    · have hne (b : Bool) : ¬Spells (c :: more) (.boolean b) := by
        cases b with
        | true => exact fun h => ht (List.cons.inj h).1
        | false => exact fun h => hf (List.cons.inj h).1
      rw [hcons, List.cons_append, readFlag,
        bind_of_ok (peekAfterBlanks_gap hgap hhead.starts.1 _)]
      simp only
      exact outcome_failType _ _ hne

theorem outcome_readText :
    Outcome (fun s => Spells value (.text s)) rest (readText (gap ++ (value ++ rest))) := by
  obtain ⟨c, more, hcons, hhead⟩ := hvalue.exists_head
  by_cases hquote : c = '"'
  · obtain ⟨raw, pieces, rfl, hraw⟩ := hhead.string hquote
    rw [List.cons_append, List.append_assoc, List.singleton_append, readText,
      bind_of_ok (peekAfterBlanks_gap hgap (by decide) _)]
    show Outcome _ rest ((skip >>= fun _ => string) _)
    rw [bind_of_ok (skip_cons _ _)]
    have hspells (s : String) : Spells ('"' :: (raw ++ ['"'])) (.text s) ↔ Denotes raw s := by
      simp [Spells]
    simp only [hspells]
    exact outcome_string hraw rest
  · have hne (s : String) : ¬Spells (c :: more) (.text s) :=
      fun ⟨raw, hraw, _⟩ => hquote (List.cons.inj hraw).1
    rw [hcons, List.cons_append, readText, bind_of_ok (peekAfterBlanks_gap hgap hhead.starts.1 _)]
    simp only
    exact outcome_failType _ _ hne

/-- A field is taken into the draft from a value that spells it. -/
theorem outcome_readField (hrest : EndsNumber rest) (d : Draft) (f : Field) :
    Outcome (fun d' => ∃ s : Settings, Spells value (s.value f) ∧ d' = d.take s f) rest
      (readField d f (gap ++ (value ++ rest))) := by
  cases f with
  | maxDepth =>
    exact ((outcome_readDepth hvalue hgap hrest).map _).congr fun d' =>
      ⟨fun ⟨n, hn, hd⟩ => ⟨{ standard with maxDepth := n }, hn, hd⟩,
        fun ⟨s, hs, hd⟩ => ⟨s.maxDepth, hs, hd⟩⟩
  | printTokens =>
    exact ((outcome_readFlag hvalue hgap).map _).congr fun d' =>
      ⟨fun ⟨b, hb, hd⟩ => ⟨{ standard with printTokens := b }, hb, hd⟩,
        fun ⟨s, hs, hd⟩ => ⟨s.printTokens, hs, hd⟩⟩
  | printAst =>
    exact ((outcome_readFlag hvalue hgap).map _).congr fun d' =>
      ⟨fun ⟨b, hb, hd⟩ => ⟨{ standard with printAst := b }, hb, hd⟩,
        fun ⟨s, hs, hd⟩ => ⟨s.printAst, hs, hd⟩⟩
  | prompt =>
    exact ((outcome_readText hvalue hgap).map _).congr fun d' =>
      ⟨fun ⟨t, ht, hd⟩ => ⟨{ standard with prompt := t }, ht, hd⟩,
        fun ⟨s, hs, hd⟩ => ⟨s.prompt, hs, hd⟩⟩
  | debug =>
    exact ((outcome_readFlag hvalue hgap).map _).congr fun d' =>
      ⟨fun ⟨b, hb, hd⟩ => ⟨{ standard with debug := b }, hb, hd⟩,
        fun ⟨s, hs, hd⟩ => ⟨s.debug, hs, hd⟩⟩

end

end Lox.Settings
