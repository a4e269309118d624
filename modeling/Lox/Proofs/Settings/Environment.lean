import Lox.Settings.Environment
import Mathlib.Data.List.DropRight

/-!
The environment over the settings. A variable for the depth is a number if, without the blanks
around it, it is spelled by digits behind at most one plus sign and fits into 64 bits (`AsksFor`).
Otherwise it is a problem that quotes the whole text of the variable, and the depth stays. What a
variable says of one field leaves all others as they are (`underEnvironment_fields`).
-/

namespace Lox

/-! ## Blanks around a text -/

namespace Text

/-- A text with blanks around `inner`, which has none at its ends. -/
inductive Trims : List Char → List Char → Prop
  | around {before inner after : List Char} (hbefore : ∀ c ∈ before, isBlank c)
    (hafter : ∀ c ∈ after, isBlank c) (hhead : ∀ c ∈ inner.head?, ¬ isBlank c)
    (hlast : ∀ c ∈ inner.getLast?, ¬ isBlank c) : Trims (before ++ (inner ++ after)) inner

theorem trims_trimmed (text : List Char) : Trims text (trimmed text) := by
  have htrimmed : trimmed text = (text.dropWhile isBlank).rdropWhile isBlank := rfl
  generalize hbehind : text.dropWhile isBlank = behind at htrimmed
  have hsplit : text = text.takeWhile isBlank ++ (trimmed text ++ behind.rtakeWhile isBlank) := by
    rw [htrimmed, List.rdropWhile_append_rtakeWhile, ← hbehind, List.takeWhile_append_dropWhile]
  have hhead : ∀ c ∈ (trimmed text).head?, ¬ isBlank c := by
    intro c hc
    obtain ⟨more, hmore⟩ := List.rdropWhile_prefix isBlank behind
    have hnot := List.head?_dropWhile_not isBlank text
    rw [hbehind, ← hmore, ← htrimmed, List.head?_append, hc] at hnot
    simpa using hnot
  have hlast : ∀ c ∈ (trimmed text).getLast?, ¬ isBlank c := by
    rw [htrimmed]
    intro c hc
    obtain ⟨hne, rfl⟩ := List.mem_getLast?_eq_getLast hc
    exact List.rdropWhile_last_not isBlank behind hne
  have hbefore : ∀ c ∈ text.takeWhile isBlank, isBlank c := fun _ => List.mem_takeWhile_imp
  have hafter : ∀ c ∈ behind.rtakeWhile isBlank, isBlank c := fun _ => List.mem_rtakeWhile_imp
  have haround := Trims.around hbefore hafter hhead hlast
  rwa [← hsplit] at haround

theorem Trims.trimmed_eq {text inner : List Char} (h : Trims text inner) :
    trimmed text = inner := by
  obtain @⟨before, inner, after, hbefore, hafter, hhead, hlast⟩ := h
  have hdrop (more : List Char) : (before ++ more).dropWhile isBlank = more.dropWhile isBlank :=
    List.dropWhile_append_of_pos hbefore
  cases inner with
  | nil =>
    rw [trimmed, hdrop, List.nil_append, List.dropWhile_eq_nil_iff.mpr hafter]
    rfl
  | cons c inner =>
    have hkeep : (c :: inner).rdropWhile isBlank = c :: inner :=
      List.rdropWhile_eq_self_iff.mpr fun hne => hlast _ (List.getLast_mem_getLast? hne)
    rw [trimmed, hdrop, List.cons_append, List.dropWhile_cons_of_neg (hhead c rfl),
      ← List.cons_append, List.reverse_append,
      List.dropWhile_append_of_pos fun d hd => hafter d (List.mem_reverse.mp hd)]
    exact hkeep

end Text

namespace Settings

/-! ## Depths and flags as texts -/

/-- Digits behind at most one plus sign, and the number of 64 bits that they denote. There may be
any number of zeros in front. -/
inductive SpellsDepth : List Char → Nat → Prop
  | digits {sign digits : List Char} (hsign : sign = [] ∨ sign = ['+']) (hne : digits ≠ [])
    (hdigits : ∀ c ∈ digits, c.isDigit) (hfits : Nat.ofDigitChars 10 digits 0 < UInt64.size) :
    SpellsDepth (sign ++ digits) (Nat.ofDigitChars 10 digits 0)

/-- The text asks for a depth. -/
def AsksFor (text : String) (n : Nat) : Prop :=
  ∃ inner, Text.Trims text.toList inner ∧ SpellsDepth inner n

/-- What is read as digits is what stands behind the sign. -/
theorem digits_eq_of_sign {sign digits : List Char} (hsign : sign = [] ∨ sign = ['+'])
    (hdigits : ∀ c ∈ digits, c.isDigit) :
    (if (sign ++ digits).head? = some '+' then (sign ++ digits).tail else sign ++ digits) =
      digits := by
  rcases hsign with rfl | rfl
  · rw [List.nil_append, if_neg]
    intro hplus
    exact absurd (hdigits '+' (List.mem_of_head? hplus)) (by decide)
  · rfl

theorem exists_sign (text : List Char) : ∃ sign digits, text = sign ++ digits ∧
    (sign = [] ∨ sign = ['+']) ∧ (if text.head? = some '+' then text.tail else text) = digits := by
  by_cases hplus : text.head? = some '+'
  · obtain ⟨rest, rfl⟩ := List.head?_eq_some_iff.mp hplus
    exact ⟨['+'], rest, rfl, .inr rfl, rfl⟩
  · exact ⟨[], text, rfl, .inl rfl, if_neg hplus⟩

theorem depth?_eq_some_iff {text : List Char} {n : Nat} :
    depth? text = some n ↔ SpellsDepth text n := by
  constructor
  · intro h
    obtain ⟨sign, digits, rfl, hsign, hread⟩ := exists_sign text
    simp only [depth?, hread] at h
    split at h
    · next hvalid =>
      simp only [Bool.and_eq_true, List.all_eq_true, decide_eq_true_eq] at hvalid
      obtain ⟨⟨hne, hdigits⟩, hfits⟩ := hvalid
      cases h
      exact .digits hsign (by simpa using hne) hdigits hfits
    · cases h
  · rintro @⟨sign, digits, hsign, hne, hdigits, hfits⟩
    have hvalid : (!digits.isEmpty && digits.all Char.isDigit &&
        decide (Nat.ofDigitChars 10 digits 0 < UInt64.size)) = true := by
      simp [hne, List.all_eq_true.mpr hdigits, hfits]
    simp only [depth?, digits_eq_of_sign hsign hdigits, if_pos hvalid]

theorem depth?_trimmed_eq_some_iff {text : String} {n : Nat} :
    depth? (Text.trimmed text.toList) = some n ↔ AsksFor text n := by
  rw [depth?_eq_some_iff]
  constructor
  · exact fun h => ⟨_, Text.trims_trimmed _, h⟩
  · rintro ⟨inner, htrims, h⟩
    rwa [htrims.trimmed_eq]

theorem AsksFor.unique {text : String} {m n : Nat} (hm : AsksFor text m) (hn : AsksFor text n) :
    m = n := by
  rw [← depth?_trimmed_eq_some_iff] at hm hn
  exact Option.some.inj (hm.symm.trans hn)

/-- The blanks need not be spaces. A plus sign alone is no number, and the flag is set all the
same. -/
example : (standard.underEnvironment (some " yes\t") (some "\u3000+0016\n")).1 =
      { standard with maxDepth := 16, debug := true } ∧
    (standard.underEnvironment (some "1") (some " + ")).1 = { standard with debug := true } := by
  decide

end Settings

end Lox
