import Lox.Decimal.Layout

/-!
The characters of numbers. Whatever the layout, a number is written in digits, a few letters and
marks, and the marks of the layout itself (`forall_mem_text`), and at least one of the characters is
a letter or a digit (`exists_alphanum_mem_text`).
-/

namespace Lox.Decimal.Layout

variable {f : Layout}

theorem isDigit_of_mem_toDigits {n : Nat} {c : Char} (h : c ∈ Nat.toDigits 10 n) : c.isDigit :=
  Nat.isDigit_of_mem_toDigits (by decide) (by decide) h

/-- The characters that belong to no layout in particular. -/
def commonMarks : List Char :=
  ['-', '.', 'e', 'i', 'n', 'f', 'N', 'a']

section
variable {p : Char → Prop} (hdigit : ∀ c, c.isDigit → p c) (hmarks : ∀ c ∈ commonMarks, p c)
  (hwhole : ∀ c ∈ f.wholeMark.toList, p c) (hsign : ∀ c ∈ f.exponentSign.toList, p c)
  {digits : List Char} (hdigits : ∀ c ∈ digits, p c)

include hdigit hmarks hwhole hdigits in
theorem forall_mem_positional (exponent : Int) : ∀ c ∈ f.positional digits exponent, p c := by
  have hzeros (n : Nat) : ∀ c ∈ List.replicate n '0', p c := by
    intro c hc
    rw [List.eq_of_mem_replicate hc]
    exact hdigit '0' rfl
  unfold positional
  split
  · exact List.forall_mem_append.mpr ⟨List.forall_mem_append.mpr ⟨hdigits, hzeros _⟩, hwhole⟩
  · dsimp only
    have hpoint : p '.' := hmarks '.' (by decide)
    split
    · refine List.forall_mem_append.mpr ⟨fun c hc => hdigits c (List.mem_of_mem_take hc), ?_⟩
      exact List.forall_mem_cons.mpr ⟨hpoint, fun c hc => hdigits c (List.mem_of_mem_drop hc)⟩
    · refine List.forall_mem_append.mpr ⟨?_, hdigits⟩
      exact List.forall_mem_cons.mpr ⟨hdigit '0' rfl, List.forall_mem_cons.mpr ⟨hpoint, hzeros _⟩⟩

include hdigit hmarks hsign hdigits in
theorem forall_mem_scientific (order : Int) : ∀ c ∈ f.scientific digits order, p c := by
  have hpower (n : Nat) : ∀ c ∈ Nat.toDigits 10 n, p c := fun c hc =>
    hdigit c (isDigit_of_mem_toDigits hc)
  refine List.forall_mem_append.mpr ⟨List.forall_mem_append.mpr
    ⟨fun c hc => hdigits c (List.mem_of_mem_take hc), ?_⟩,
    List.forall_mem_cons.mpr ⟨hmarks 'e' (by decide), ?_⟩⟩
  · split
    · exact List.forall_mem_nil _
    · exact List.forall_mem_cons.mpr
        ⟨hmarks '.' (by decide), fun c hc => hdigits c (List.mem_of_mem_drop hc)⟩
  · split
    · exact List.forall_mem_append.mpr ⟨hsign, hpower _⟩
    · exact List.forall_mem_cons.mpr ⟨hmarks '-' (by decide), hpower _⟩

include hmarks in
theorem forall_mem_signed (negative : Bool) {body : List Char} (hbody : ∀ c ∈ body, p c) :
    ∀ c ∈ (String.ofList (if negative then '-' :: body else body)).toList, p c := by
  rw [String.toList_ofList]
  cases negative with
  | false => exact hbody
  | true => exact List.forall_mem_cons.mpr ⟨hmarks '-' (by decide), hbody⟩

include hdigit hmarks hwhole hsign

theorem forall_mem_digits (d : Digits) : ∀ c ∈ f.digits d, p c := by
  have hdigits : ∀ c ∈ Nat.toDigits 10 d.digits, p c := fun c hc =>
    hdigit c (isDigit_of_mem_toDigits hc)
  unfold Layout.digits
  dsimp only
  split
  · exact forall_mem_positional hdigit hmarks hwhole hdigits _
  · exact forall_mem_scientific hdigit hmarks hsign hdigits _

/-- What holds of digits, of the common marks and of those of the layout holds of all characters
that a number is written in. -/
theorem forall_mem_text (x : Float) : ∀ c ∈ (f.text x).toList, p c := by
  have hinfinite : "inf".toList ⊆ commonMarks := by
    show ['i', 'n', 'f'] ⊆ commonMarks
    simp [commonMarks]
  have hnot : "NaN".toList ⊆ commonMarks := by
    show ['N', 'a', 'N'] ⊆ commonMarks
    simp [commonMarks]
  unfold text finite? nonFinite
  cases decode x with
  | notANumber =>
    intro c hc
    exact hmarks c (hnot hc)
  | infinite negative =>
    exact forall_mem_signed hmarks negative fun c hc => hmarks c (hinfinite hc)
  | zero negative =>
    exact forall_mem_signed hmarks negative (List.forall_mem_cons.mpr ⟨hdigit '0' rfl, hwhole⟩)
  | finite negative size =>
    exact forall_mem_signed hmarks negative (forall_mem_digits hdigit hmarks hwhole hsign _)

end

/-! ## Numbers are not made of marks alone -/

theorem isAlphanum_of_isDigit {c : Char} (h : c.isDigit) : c.isAlphanum := by
  simp [Char.isAlphanum, h]

theorem mem_positional_of_mem {digits : List Char} {c : Char} (h : c ∈ digits) (exponent : Int) :
    c ∈ f.positional digits exponent := by
  unfold positional
  split
  · simp [h]
  · dsimp only
    split
    · next places hlt =>
      rw [← List.take_append_drop (digits.length - (-exponent).toNat) digits] at h
      rcases List.mem_append.mp h with h | h
      · exact List.mem_append_left _ h
      · exact List.mem_append_right _ (List.mem_cons_of_mem _ h)
    · simp [h]

theorem exists_digit_mem_digits (d : Digits) : ∃ c ∈ f.digits d, c.isDigit := by
  obtain ⟨c, more, hc⟩ := List.exists_cons_of_ne_nil (@Nat.toDigits_ne_nil d.digits 10)
  have hmem : c ∈ Nat.toDigits 10 d.digits := hc ▸ List.mem_cons_self
  refine ⟨c, ?_, isDigit_of_mem_toDigits hmem⟩
  unfold Layout.digits
  dsimp only
  split
  · exact mem_positional_of_mem hmem _
  · rw [hc, scientific]
    simp

theorem exists_mem_signed {p : Char → Prop} (negative : Bool) {body : List Char}
    (h : ∃ c ∈ body, p c) :
    ∃ c ∈ (String.ofList (if negative then '-' :: body else body)).toList, p c := by
  rw [String.toList_ofList]
  obtain ⟨c, hc, hp⟩ := h
  cases negative with
  | false => exact ⟨c, hc, hp⟩
  | true => exact ⟨c, List.mem_cons_of_mem _ hc, hp⟩

theorem exists_alphanum_mem_text (f : Layout) (x : Float) :
    ∃ c ∈ (f.text x).toList, c.isAlphanum := by
  have hinfinite : ∃ c ∈ "inf".toList, c.isAlphanum := ⟨'i', by decide, by decide⟩
  have hnot : ∃ c ∈ "NaN".toList, c.isAlphanum := ⟨'N', by decide, by decide⟩
  unfold text finite? nonFinite
  cases decode x with
  | notANumber => exact hnot
  | infinite negative => exact exists_mem_signed negative hinfinite
  | zero negative => exact exists_mem_signed negative ⟨'0', List.mem_cons_self, rfl⟩
  | finite negative size =>
    obtain ⟨c, hc, hdigit⟩ := f.exists_digit_mem_digits (size.shortest f.tie)
    exact exists_mem_signed negative ⟨c, hc, isAlphanum_of_isDigit hdigit⟩

end Lox.Decimal.Layout
