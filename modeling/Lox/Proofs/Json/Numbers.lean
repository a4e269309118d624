import Lox.Proofs.Json.Grammar
import Lox.Proofs.Json.Steps

/-!
Numbers as they may be written. The reader comes to a natural number exactly where a numeral is made
of digits alone and fits into 64 bits (`number_eq_natural_iff`). A numeral that is passed over may
have any size (`skipNumber_append`).
-/

namespace Lox.Json.Reader

/-- Behind a whole number nothing follows that would belong to the number. -/
def EndsNumber (rest : List Char) : Prop :=
  ∀ c ∈ rest.head?, ¬ c.isDigit ∧ c ≠ '.' ∧ c ≠ 'e' ∧ c ≠ 'E'

/-- Behind a run of digits no digit follows. -/
def EndsDigits (rest : List Char) : Prop :=
  ∀ c ∈ rest.head?, ¬ c.isDigit

theorem EndsNumber.endsDigits {rest : List Char} (h : EndsNumber rest) : EndsDigits rest :=
  fun c hc => (h c hc).1

theorem EndsDigits.head?_any {rest : List Char} (h : EndsDigits rest) :
    ¬ rest.head?.any Char.isDigit := by
  cases hc : rest.head? with
  | none => simp
  | some c => simpa using h c hc

theorem EndsNumber.head?_ne_point {rest : List Char} (h : EndsNumber rest) :
    rest.head? ≠ some '.' :=
  fun hc => (h _ hc).2.1 rfl

theorem EndsNumber.not_isExponentMark {rest : List Char} (h : EndsNumber rest) :
    ¬ isExponentMark rest.head? := by
  simp only [isExponentMark, Bool.or_eq_true, decide_eq_true_eq]
  rintro (hc | hc)
  · exact (h _ hc).2.2.1 rfl
  · exact (h _ hc).2.2.2 rfl

theorem digits_append {ds rest : List Char} (h : ∀ c ∈ ds, c.isDigit) (hrest : EndsDigits rest) :
    digits (ds ++ rest) = .ok (ds, rest) := by
  have hspan : (ds ++ rest).span Char.isDigit = (ds, rest) := by
    rw [List.span_eq_takeWhile_dropWhile, List.takeWhile_append_of_pos h,
      List.dropWhile_append_of_pos h]
    cases rest with
    | nil => simp
    | cons c rest =>
      have hc := hrest c rfl
      rw [List.takeWhile_cons_of_neg hc, List.dropWhile_cons_of_neg hc, List.append_nil]
  rw [digits, hspan]

theorem discard_digits_append {ds rest : List Char} (h : ∀ c ∈ ds, c.isDigit)
    (hrest : EndsDigits rest) : (discard digits : Reader Unit) (ds ++ rest) = .ok ((), rest) := by
  have hread := digits_append h hrest
  simp [discard, Functor.discard, Functor.mapConst, StateT.map, bind, Except.bind, pure,
    Except.pure, hread]

/-! ## Digits that fit -/

theorem le_ofDigitChars (digits : List Char) (n : Nat) : n ≤ Nat.ofDigitChars 10 digits n := by
  induction digits generalizing n with
  | nil => exact Nat.le_refl n
  | cons d digits ih =>
    have hle := ih (10 * n + (d.toNat - '0'.toNat))
    rw [Nat.ofDigitChars_cons]
    omega

/-- All digits are gathered into the number that they denote, if it fits into 64 bits. -/
theorem gather_of_fits {digits : List Char} {n : Nat}
    (h : Nat.ofDigitChars 10 digits n < UInt64.size) :
    Number.gather n digits = (Nat.ofDigitChars 10 digits n, []) := by
  induction digits generalizing n with
  | nil => rfl
  | cons d digits ih =>
    rw [Nat.ofDigitChars_cons] at h ⊢
    have hle := le_ofDigitChars digits (10 * n + (d.toNat - '0'.toNat))
    rw [Number.gather, if_pos (Nat.lt_of_le_of_lt hle h), ih h]

/-- Digits are left over only if all of them do not fit. -/
theorem fits_of_gather {digits : List Char} {n : Nat} (hn : n < UInt64.size)
    (h : (Number.gather n digits).2 = []) : Nat.ofDigitChars 10 digits n < UInt64.size := by
  induction digits generalizing n with
  | nil => exact hn
  | cons d digits ih =>
    rw [Number.gather] at h
    rw [Nat.ofDigitChars_cons]
    split at h
    · next hlt => exact ih hlt h
    · cases h

/-! ## The parts of a number -/

section
variable {whole rest : List Char}

/-- The rest of a number behind its whole part, when the given character comes next. -/
def afterWhole (isPositive : Bool) (whole : List Char) (next : Option Char) : Reader Number :=
  let (n, excess) := Number.gather 0 whole
  if next = some '.' then afterPoint isPositive n excess.length
  else if isExponentMark next then afterExponentMark isPositive n excess.length
  else if excess.isEmpty then pure (if isPositive then .natural n else negated n)
  else finite isPositive (Number.scale? n excess.length)

theorem number_whole (h : Whole whole) (hrest : EndsDigits rest) (isPositive : Bool) :
    number isPositive (whole ++ rest) = afterWhole isPositive whole rest.head? rest := by
  have hdigit := hrest.head?_any
  cases h with
  | zero =>
    -- a zero ends at once, as no number begins with one
    rw [List.singleton_append, number, bind_of_ok (peek_cons _ _)]
    simp [bind_of_ok (skip_cons _ _), bind_of_ok (peek_eq _), hdigit, afterWhole]
  | @digits d ds hne h =>
    have hd := h d List.mem_cons_self
    have hread := digits_append h hrest
    rw [List.cons_append] at hread ⊢
    rw [number, bind_of_ok (peek_cons _ _)]
    simp [bind_of_ok (peek_eq _), bind_of_ok hread, hne, hd, afterWhole]

end

/-! ## Naturals -/

/-- The reader comes to no natural number, whatever it reads. -/
def NoNatural (x : Reader Number) : Prop :=
  ∀ text n rest, x text ≠ .ok (.natural n, rest)

namespace NoNatural

theorem fail (cause : Cause) (ahead : Nat) : NoNatural (Reader.fail cause ahead) :=
  fun _ _ _ h => nomatch h

theorem pure {x : Number} (hx : ∀ n, x ≠ .natural n) : NoNatural (pure x) := by
  intro text n rest h
  cases h
  exact hx n rfl

theorem bind {α : Type} {x : Reader α} {f : α → Reader Number} (h : ∀ a, NoNatural (f a)) :
    NoNatural (x >>= f) := by
  intro text n rest heq
  simp only [Bind.bind, StateT.bind, Except.bind] at heq
  split at heq
  · cases heq
  · exact h _ _ _ _ heq

theorem finite (isPositive : Bool) (x? : Option Float) :
    NoNatural (Reader.finite isPositive x?) := by
  cases x? with
  | none => exact fail _ _
  | some x => exact pure (fun n h => nomatch h)

theorem afterExponentMark (isPositive : Bool) (significand : Nat) (exponent : Int) :
    NoNatural (Reader.afterExponentMark isPositive significand exponent) := by
  refine bind fun _ => bind fun upward => bind fun c? => ?_
  cases c? with
  | none => exact fail _ _
  | some c =>
    dsimp only
    split
    · refine bind fun n? => ?_
      cases n? with
      | some n => exact finite _ _
      | none =>
        dsimp only
        split
        · exact fail _ _
        · exact bind fun _ => finite _ _
    · exact fail _ _

theorem afterPoint (isPositive : Bool) (significand : Nat) (exponent : Int) :
    NoNatural (Reader.afterPoint isPositive significand exponent) := by
  refine bind fun _ => bind fun fraction => ?_
  dsimp only
  split
  · refine bind fun c? => ?_
    cases c? with
    | none => exact fail _ _
    | some c => exact fail _ _
  · refine bind fun c? => ?_
    split
    · exact afterExponentMark _ _ _
    · exact finite _ _

theorem negated (n : Nat) : NoNatural (Pure.pure (Reader.negated n)) := by
  refine pure fun m h => ?_
  unfold Reader.negated at h
  split at h <;> cases h

end NoNatural

/-- Numbers with a sign are no natural numbers. -/
theorem noNatural_afterWhole_false (whole : List Char) (next : Option Char) :
    NoNatural (afterWhole false whole next) := by
  unfold afterWhole
  dsimp only
  split
  · exact .afterPoint _ _ _
  split
  · exact .afterExponentMark _ _ _
  split
  · exact .negated _
  · exact .finite _ _

/-- Nor are numbers with a fraction or an exponent. -/
theorem noNatural_afterWhole {next : Option Char}
    (h : next = some '.' ∨ isExponentMark next) (isPositive : Bool) (whole : List Char) :
    NoNatural (afterWhole isPositive whole next) := by
  unfold afterWhole
  dsimp only
  split
  · exact .afterPoint _ _ _
  · next hpoint =>
    rw [if_pos (h.resolve_left hpoint)]
    exact .afterExponentMark _ _ _

/-- Digits alone are a natural number if they fit. -/
theorem afterWhole_eq_natural_iff {whole rest : List Char} (hrest : EndsNumber rest) {n : Nat}
    {rest' : List Char} :
    afterWhole true whole rest.head? rest = .ok (.natural n, rest') ↔
      Nat.ofDigitChars 10 whole 0 = n ∧ n < UInt64.size ∧ rest = rest' := by
  unfold afterWhole
  dsimp only
  rw [if_neg hrest.head?_ne_point, if_neg hrest.not_isExponentMark]
  by_cases hfits : Nat.ofDigitChars 10 whole 0 < UInt64.size
  · rw [gather_of_fits hfits]
    constructor
    · intro h
      cases h
      exact ⟨rfl, hfits, rfl⟩
    · rintro ⟨rfl, -, rfl⟩
      rfl
  · have hexcess : (Number.gather 0 whole).2 ≠ [] := fun h =>
      hfits (fits_of_gather (by decide) h)
    rw [if_neg (by simpa using hexcess)]
    constructor
    · intro h
      exact absurd h (NoNatural.finite _ _ _ _ _)
    · rintro ⟨rfl, hn, -⟩
      exact absurd hn hfits

/-! ## Numerals -/

section
variable {text whole fraction exponent rest : List Char}

theorem Exponent.head?_append (h : Exponent exponent) (hrest : EndsNumber rest) :
    EndsDigits (exponent ++ rest) ∧ (exponent ++ rest).head? ≠ some '.' ∧
      (exponent ≠ [] → isExponentMark (exponent ++ rest).head?) := by
  cases h with
  | none => exact ⟨hrest.endsDigits, hrest.head?_ne_point, fun h => absurd rfl h⟩
  | @some mark sign ds hmark hsign hne h =>
    have hhead : (mark :: (sign ++ ds) ++ rest).head? = Option.some mark := rfl
    refine ⟨fun c hc => ?_, ?_, fun _ => ?_⟩
    · cases hhead.symm.trans hc
      rcases hmark with rfl | rfl <;> decide
    · rw [hhead]
      rcases hmark with rfl | rfl <;> decide
    · rw [hhead]
      rcases hmark with rfl | rfl <;> rfl

theorem Fraction.endsDigits (h : Fraction fraction) (hexponent : Exponent exponent)
    (hrest : EndsNumber rest) : EndsDigits (fraction ++ (exponent ++ rest)) := by
  cases h with
  | none => exact (Exponent.head?_append hexponent hrest).1
  | some hne h =>
    intro c hc
    cases hc
    decide

/-- A numeral is read as a natural number exactly if it is made of digits alone and fits. -/
theorem number_eq_natural_iff (h : Numeral text) (hrest : EndsNumber rest) {n : Nat}
    {rest' : List Char} :
    number true (text ++ rest) = .ok (.natural n, rest') ↔
      (∀ c ∈ text, c.isDigit) ∧ Nat.ofDigitChars 10 text 0 = n ∧ n < UInt64.size ∧
        rest = rest' := by
  cases h with
  | @parts whole fraction exponent hwhole hfraction hexponent =>
    have hends := Fraction.endsDigits hfraction hexponent hrest
    rw [List.append_assoc, List.append_assoc, number_whole hwhole hends]
    cases hfraction with
    | some hne hdigits =>
      have hread := noNatural_afterWhole (.inl rfl) true whole
      refine iff_of_false (hread _ _ _) fun h => ?_
      exact absurd (h.1 '.' (by simp)) (by decide)
    | none =>
      obtain ⟨-, -, hmark⟩ := Exponent.head?_append hexponent hrest
      cases hexponent with
      | @some mark sign ds hmark' hsign hne hdigits =>
        have hread := noNatural_afterWhole (.inr (hmark (List.cons_ne_nil _ _))) true whole
        refine iff_of_false (hread _ _ _) fun h => ?_
        have hdigit := h.1 mark (by simp)
        rcases hmark' with rfl | rfl <;> exact absurd hdigit (by decide)
      | none =>
        simp only [List.nil_append, List.append_nil]
        rw [afterWhole_eq_natural_iff hrest]
        exact ⟨fun h => ⟨hwhole.isDigit, h⟩, fun h => h.2⟩

/-- A number with a sign is never a natural number. -/
theorem number_false_ne_natural (h : Numeral text) (hrest : EndsNumber rest) (n : Nat)
    (rest' : List Char) : number false (text ++ rest) ≠ .ok (.natural n, rest') := by
  cases h with
  | parts hwhole hfraction hexponent =>
    have hends := Fraction.endsDigits hfraction hexponent hrest
    rw [List.append_assoc, List.append_assoc, number_whole hwhole hends]
    exact noNatural_afterWhole_false _ _ _ _ _

theorem head?_toDigits_ne {n : Nat} (h : 0 < n) : (Nat.toDigits 10 n).head? ≠ some '0' := by
  induction n using Nat.strongRecOn with
  | ind n ih =>
    by_cases hn : n < 10
    · have hall : ∀ n < 10, 0 < n → Nat.digitChar n ≠ '0' := by decide
      rw [Nat.toDigits_of_lt_base hn]
      simpa using hall n hn h
    · have htail := ih (n / 10) (by omega) (by omega)
      obtain ⟨d, digits, hd⟩ := List.exists_cons_of_ne_nil (@Nat.toDigits_ne_nil (n / 10) 10)
      rw [Nat.toDigits_of_base_le (by decide) (Nat.le_of_not_lt hn), hd, List.cons_append]
      rwa [hd] at htail

theorem whole_toDigits (n : Nat) : Whole (Nat.toDigits 10 n) := by
  rcases Nat.eq_zero_or_pos n with rfl | hpos
  · rw [Nat.toDigits_zero]
    exact .zero
  · have hdigits : ∀ c ∈ Nat.toDigits 10 n, c.isDigit := fun c hc =>
      Nat.isDigit_of_mem_toDigits (by decide) (by decide) hc
    have hhead := head?_toDigits_ne hpos
    obtain ⟨d, ds, hd⟩ := List.exists_cons_of_ne_nil (@Nat.toDigits_ne_nil n 10)
    rw [hd] at hdigits hhead ⊢
    exact .digits (by simpa using hhead) hdigits

/-! ## Numbers that are passed over -/

/-- The rest of a number that is passed over, behind its whole part. -/
def skipAfterWhole : Reader Unit := do
  if (← peek) = some '.' then
    skip
    if (← digits).isEmpty then fail .invalidNumber 1
  if isExponentMark (← peek) then skipExponent

theorem skipNumber_whole (h : Whole whole) (hrest : EndsDigits rest) :
    skipNumber (whole ++ rest) = skipAfterWhole rest := by
  have hdigit := hrest.head?_any
  cases h with
  | zero =>
    rw [List.singleton_append, skipNumber, bind_of_ok (peek_cons _ _)]
    simp [bind_of_ok (skip_cons _ _), bind_of_ok (peek_eq _), hdigit, skipAfterWhole]
  | @digits d ds hne h =>
    have hd := h d List.mem_cons_self
    have hread := discard_digits_append h hrest
    rw [List.cons_append] at hread ⊢
    rw [skipNumber, bind_of_ok (peek_cons _ _)]
    simp [bind_of_ok (peek_eq _), bind_of_ok hread, hne, hd, skipAfterWhole]

theorem exponentSign_of_digit {d : Char} (hd : d.isDigit) (rest : List Char) :
    exponentSign (d :: rest) = .ok (true, d :: rest) := by
  have hplus : d ≠ '+' := by
    rintro rfl
    exact absurd hd (by decide)
  have hminus : d ≠ '-' := by
    rintro rfl
    exact absurd hd (by decide)
  rw [exponentSign, bind_of_ok (peek_cons _ _)]
  simp [hplus, hminus, pure_eq]

theorem skipExponent_append (h : Exponent exponent) (hne : exponent ≠ [])
    (hrest : EndsNumber rest) : skipExponent (exponent ++ rest) = .ok ((), rest) := by
  cases h with
  | none => exact absurd rfl hne
  | @some mark sign ds hmark hsign hds h =>
    obtain ⟨d, ds, rfl⟩ := List.exists_cons_of_ne_nil hds
    have hd := h d List.mem_cons_self
    have hread := discard_digits_append h hrest.endsDigits
    have hsign : ∃ b, exponentSign (sign ++ (d :: ds ++ rest)) = .ok (b, d :: ds ++ rest) := by
      rcases hsign with rfl | rfl | rfl
      · exact ⟨true, exponentSign_of_digit hd _⟩
      · exact ⟨true, rfl⟩
      · exact ⟨false, rfl⟩
    obtain ⟨b, hsign⟩ := hsign
    rw [List.cons_append, List.append_assoc, skipExponent, bind_of_ok (skip_cons _ _),
      bind_of_ok hsign, List.cons_append, bind_of_ok (peek_cons _ _)]
    simp only [hd, if_true]
    exact hread

theorem skipAfterWhole_append (hfraction : Fraction fraction) (hexponent : Exponent exponent)
    (hrest : EndsNumber rest) :
    skipAfterWhole (fraction ++ (exponent ++ rest)) = .ok ((), rest) := by
  obtain ⟨hdigits, hpoint, hmark⟩ := Exponent.head?_append hexponent hrest
  have hend : (if isExponentMark (exponent ++ rest).head? then skipExponent else pure ())
      (exponent ++ rest) = .ok ((), rest) := by
    by_cases hne : exponent = []
    · rw [hne, List.nil_append, if_neg hrest.not_isExponentMark]
      rfl
    · rw [if_pos (hmark hne), skipExponent_append hexponent hne hrest]
  cases hfraction with
  | none =>
    rw [List.nil_append, skipAfterWhole, bind_of_ok (peek_eq _)]
    simp only [hpoint, if_false]
    exact (bind_of_ok (peek_eq _)).trans hend
  | @some ds hne h =>
    have hread := digits_append h hdigits
    have hempty : ds.isEmpty = false := List.isEmpty_eq_false_iff.mpr hne
    rw [List.cons_append, skipAfterWhole, bind_of_ok (peek_cons _ _)]
    simp only [if_true]
    rw [bind_of_ok (skip_cons _ _), bind_of_ok hread]
    simp only [hempty, Bool.false_eq_true, if_false]
    exact (bind_of_ok (peek_eq _)).trans hend

/-- A numeral is passed over, whatever its size. -/
theorem skipNumber_append (h : Numeral text) (hrest : EndsNumber rest) :
    skipNumber (text ++ rest) = .ok ((), rest) := by
  cases h with
  | parts hwhole hfraction hexponent =>
    have hends := Fraction.endsDigits hfraction hexponent hrest
    rw [List.append_assoc, List.append_assoc, skipNumber_whole hwhole hends]
    exact skipAfterWhole_append hfraction hexponent hrest

end

end Lox.Json.Reader
