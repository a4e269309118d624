import Lox.Proofs.Json.Written
import Lox.Proofs.Settings.Objects

/-!
Settings read back from their text. The text is that of an object, with the fields as its members
(`objectText_text`), and the value of each member spells what the settings have for the field
(`spells_write`).
-/

namespace Lox.Settings

open Json Json.Reader

/-! ## The text, member by member -/

/-- What stands for a field behind its key. -/
def afterKey (s : Settings) (f : Field) : List Char :=
  ':' :: ' ' :: write .indented 1 (s.value f)

/-- The member of a field, on a line of its own. -/
def member (s : Settings) (f : Field) : List Char :=
  '\n' :: ' ' :: ' ' :: '"' :: (f.name.toList.flatMap escape ++ '"' :: s.afterKey f)

theorem text_toList (s : Settings) : s.text.toList = '\x7b' :: (s.member .maxDepth ++
    (Field.all.tail.flatMap fun f => ',' :: s.member f) ++ ['\n', '\x7d']) := by
  have hjson : s.json = .object (Field.all.map fun f => (f.name, s.value f)) := rfl
  rw [text, pretty, String.toList_ofList, hjson]
  simp [Field.all, write, writeMembers, Style.enclose, member, afterKey, quote, Style.indented]

/-! ## Values -/

/-- A field and its value as a member. -/
def entry (s : Settings) (f : Field) : Member :=
  ⟨f.name, write .indented 1 (s.value f)⟩

theorem spells_write {s : Settings} (hs : s.maxDepth < UInt64.size) (f : Field) :
    Spells (s.entry f).value (s.value f) := by
  cases f with
  | maxDepth =>
    have hdigits : ∀ c ∈ Nat.toDigits 10 s.maxDepth, c.isDigit := fun c hc =>
      Nat.isDigit_of_mem_toDigits (by decide) (by decide) hc
    exact ⟨hdigits, Nat.ofDigitChars_ten_toDigits, hs⟩
  | printTokens => cases h : s.printTokens <;> simp [entry, value, h, write, Spells]
  | printAst => cases h : s.printAst <;> simp [entry, value, h, write, Spells]
  | prompt => exact ⟨_, rfl, denotes_escape s.prompt⟩
  | debug => cases h : s.debug <;> simp [entry, value, h, write, Spells]

theorem wellFormed_write (s : Settings) (f : Field) : WellFormed .value (s.entry f).value :=
  (means_write Style.isSpaced_indented (s.value f) 1).wellFormed

/-! ## The whole text -/

/-- The members of some fields, the first of which has no comma before it. -/
theorem membersText_member (s : Settings) (f : Field) (fields : List Field) :
    ∃ text, s.member f ++ (fields.flatMap fun f => ',' :: s.member f) ++ ['\n', '\x7d'] =
        ['\n', ' ', ' '] ++ text ∧ MembersText text ((f :: fields).map s.entry) := by
  induction fields generalizing f with
  | nil =>
    refine ⟨_, ?_, .last (.key isGap_nil) (denotes_escape f.name) (show IsGap [' '] by decide)
      (wellFormed_write s f) (show IsGap ['\n'] by decide)⟩
    simp [member, afterKey, entry]
  | cons g fields ih =>
    obtain ⟨text, htext, hmembers⟩ := ih g
    refine ⟨_, ?_, .more (.key isGap_nil) (denotes_escape f.name) (show IsGap [' '] by decide)
      (wellFormed_write s f) isGap_nil (show IsGap ['\n', ' ', ' '] by decide) hmembers⟩
    rw [List.append_assoc] at htext
    simp only [List.flatMap_cons, List.append_assoc, List.cons_append, htext]
    simp [member, afterKey, entry]

theorem objectText_text (s : Settings) : ObjectText s.text.toList (Field.all.map s.entry) := by
  obtain ⟨text, htext, hmembers⟩ := membersText_member s .maxDepth Field.all.tail
  have hobject := ObjectText.filled isGap_nil (show IsGap ['\n', ' ', ' '] by decide) hmembers
    isGap_nil
  rw [List.append_nil] at hobject
  rw [text_toList, htext]
  exact hobject

/-- Settings with a depth of 64 bits are read back from their text. -/
theorem ofText_text {s : Settings} (hs : s.maxDepth < UInt64.size) : ofText s.text = .ok s := by
  refine (ofText_eq_ok_iff (objectText_text s) s).mpr fun f => ?_
  have hvalues : f.values (Field.all.map s.entry) = [(s.entry f).value] := by
    cases f <;> rfl
  rw [Follows, hvalues]
  exact spells_write hs f

end Lox.Settings
