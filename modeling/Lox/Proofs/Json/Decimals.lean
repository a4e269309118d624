import Lox.Proofs.Decimal.Characters
import Lox.Proofs.Decimal.Shortest
import Lox.Proofs.Json.Numbers

/-!
Floating-point numbers as they are written. Every finite one is written as a numeral that does not
pass for a whole number, as it has a point or an exponent (`IsDecimal.of_finite?`).
-/

namespace Lox.Json

open Decimal (Layout Digits Magnitude)

/-- A numeral with a fraction or an exponent. -/
def IsDecimal (text : List Char) : Prop :=
  Numeral text ∧ ∃ c ∈ text, ¬ c.isDigit

namespace IsDecimal

variable {whole fraction exponent digits : List Char}

theorem of_fraction (hwhole : Whole whole) (hne : digits ≠ []) (h : ∀ c ∈ digits, c.isDigit)
    (hexponent : Exponent exponent) : IsDecimal (whole ++ ('.' :: digits ++ exponent)) :=
  ⟨.parts hwhole (.some hne h) hexponent, '.', by simp, by decide⟩

theorem of_exponent (hwhole : Whole whole) (hfraction : Fraction fraction)
    (hexponent : Exponent exponent) {mark : Char} (hmark : mark ∈ exponent)
    (hdigit : ¬ mark.isDigit) : IsDecimal (whole ++ (fraction ++ exponent)) :=
  ⟨.parts hwhole hfraction hexponent, mark, by simp [hmark], hdigit⟩

/-! ## Digits with a point -/

theorem forall_isDigit_zeros (n : Nat) : ∀ c ∈ List.replicate n '0', c.isDigit := by
  intro c hc
  rw [List.eq_of_mem_replicate hc]
  rfl

section
variable {d : Char} {ds : List Char} (hne : d ≠ '0') (h : ∀ c ∈ d :: ds, c.isDigit)
include hne h

theorem positional (order : Int) : IsDecimal (decimals.positional (d :: ds) order) := by
  unfold Layout.positional
  split
  · have hwhole : Whole (d :: (ds ++ List.replicate order.toNat '0')) :=
      .digits hne (List.forall_mem_append.mpr ⟨h, forall_isDigit_zeros _⟩)
    have hdecimal := of_fraction hwhole (List.cons_ne_nil '0' []) (forall_isDigit_zeros 1) .none
    exact hdecimal
  · next horder =>
    dsimp only
    split
    · next hplaces =>
      -- at least one digit stays ahead of the point, and one comes behind it
      obtain ⟨n, hn⟩ := Nat.exists_eq_succ_of_ne_zero (Nat.sub_ne_zero_of_lt hplaces)
      have hahead : Whole ((d :: ds).take (n + 1)) :=
        .digits hne fun c hc => h c (List.mem_of_mem_take (i := n + 1) hc)
      have hbehind : (d :: ds).drop (n + 1) ≠ [] := by
        rw [ne_eq, List.drop_eq_nil_iff]
        omega
      have hdecimal := of_fraction hahead hbehind
        (fun c hc => h c (List.mem_of_mem_drop hc)) .none
      rw [List.append_nil] at hdecimal
      rw [hn]
      exact hdecimal
    · have hdecimal (n : Nat) : IsDecimal ('0' :: '.' :: (List.replicate n '0' ++ d :: ds)) := by
        have hbehind : ∀ c ∈ List.replicate n '0' ++ d :: ds, c.isDigit :=
          List.forall_mem_append.mpr ⟨forall_isDigit_zeros n, h⟩
        have hdecimal := of_fraction .zero (by simp) hbehind .none
        rwa [List.append_nil] at hdecimal
      exact hdecimal _

theorem scientific (order : Int) : IsDecimal (decimals.scientific (d :: ds) order) := by
  have hfraction : Fraction (if (d :: ds).length ≤ 1 then [] else '.' :: (d :: ds).drop 1) := by
    split
    · exact .none
    · next hlength =>
      refine .some ?_ fun c hc => h c (List.mem_of_mem_drop hc)
      rw [ne_eq, List.drop_eq_nil_iff]
      exact hlength
  have hpower (n : Nat) : ∀ c ∈ Nat.toDigits 10 n, c.isDigit := fun _ =>
    Layout.isDigit_of_mem_toDigits
  have hexponent : Exponent ('e' :: if 0 ≤ order then ['+'] ++ Nat.toDigits 10 order.toNat
      else '-' :: Nat.toDigits 10 (-order).toNat) := by
    have hsigned {sign : List Char} (hsign : sign = [] ∨ sign = ['+'] ∨ sign = ['-']) (n : Nat) :
        Exponent ('e' :: (sign ++ Nat.toDigits 10 n)) :=
      .some (.inl rfl) hsign Nat.toDigits_ne_nil (hpower n)
    split
    · exact hsigned (.inr (.inl rfl)) _
    · exact hsigned (.inr (.inr rfl)) _
  have hwhole : Whole [d] := .digits hne fun c hc => h c (List.mem_of_mem_take (i := 1) hc)
  have hdecimal := of_exponent hwhole hfraction hexponent (List.mem_cons_self ..) (by decide)
  rw [← List.append_assoc] at hdecimal
  exact hdecimal

end

theorem of_digits {d : Digits} (h : 0 < d.digits) : IsDecimal (decimals.digits d) := by
  have hdigits : ∀ c ∈ Nat.toDigits 10 d.digits, c.isDigit := fun _ =>
    Layout.isDigit_of_mem_toDigits
  have hhead := Reader.head?_toDigits_ne h
  obtain ⟨c, cs, hcs⟩ := List.exists_cons_of_ne_nil (@Nat.toDigits_ne_nil d.digits 10)
  rw [hcs] at hdigits hhead
  have hne : c ≠ '0' := by simpa using hhead
  unfold Layout.digits
  dsimp only
  rw [hcs]
  split
  · exact positional hne hdigits _
  · exact scientific hne hdigits _

/-- A finite number is written as a numeral, perhaps with a sign in front. -/
theorem of_finite? {x : Float} {s : String} (h : decimals.finite? x = some s) :
    ∃ body, IsDecimal body ∧ (s.toList = body ∨ s.toList = '-' :: body) := by
  have hsigned (negative : Bool) (body : List Char) :
      (String.ofList (if negative then '-' :: body else body)).toList = body ∨
        (String.ofList (if negative then '-' :: body else body)).toList = '-' :: body := by
    rw [String.toList_ofList]
    cases negative with
    | false => exact .inl rfl
    | true => exact .inr rfl
  unfold Layout.finite? at h
  split at h
  · cases h
  · cases h
  · next negative _ =>
    cases h
    exact ⟨_, of_fraction .zero (List.cons_ne_nil '0' []) (forall_isDigit_zeros 1) .none,
      hsigned negative ('0' :: decimals.wholeMark.toList)⟩
  · next negative m hdecode =>
    cases h
    have hpos := Magnitude.shortest_digits_pos decimals.tie (Decimal.fits_of_decode hdecode)
    exact ⟨_, of_digits hpos, hsigned negative _⟩

end IsDecimal

theorem finite?_eq_none_iff (x : Float) : decimals.finite? x = none ↔ x.isFinite = false := by
  rw [← Bool.not_eq_true, Decimal.isFinite_iff_decode]
  unfold Layout.finite?
  cases Decimal.decode x <;> simp

end Lox.Json
