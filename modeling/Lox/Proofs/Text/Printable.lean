import Lox.Proofs.Decimal.Characters
import Lox.Text.Quoted

/-!
Texts of printable characters. A quoted text is one, whatever is quoted (`printable_quoted`), and so
is a number in any layout whose own marks are printable (`printable_text`).
-/

namespace Lox

namespace Text

/-- Every character stands for itself. -/
def Printable (text : List Char) : Prop :=
  ∀ c ∈ text, isPrintable c

@[simp] theorem printable_nil : Printable [] := nofun

@[simp] theorem printable_cons {c : Char} {text : List Char} :
    Printable (c :: text) ↔ isPrintable c ∧ Printable text :=
  List.forall_mem_cons

@[simp] theorem printable_append {text more : List Char} :
    Printable (text ++ more) ↔ Printable text ∧ Printable more :=
  List.forall_mem_append

/-- For texts that are given in full. -/
theorem printable_of_all {text : List Char} (h : text.all isPrintable) : Printable text :=
  List.all_eq_true.mp h

theorem Printable.count_eq_zero {text : List Char} (h : Printable text) {c : Char}
    (hc : ¬ isPrintable c) : text.count c = 0 :=
  List.count_eq_zero.mpr fun hmem => hc (h c hmem)

/-! ## Letters and digits -/

theorem isPrintable_of_isDigit {c : Char} (h : c.isDigit) : isPrintable c := by
  have hbounds : 48 ≤ c.toNat ∧ c.toNat ≤ 57 := by
    simpa [Char.isDigit, UInt32.le_iff_toNat_le] using h
  rw [isPrintable, if_pos (by omega)]
  exact decide_eq_true (by omega)

theorem isPrintable_of_isAlpha {c : Char} (h : c.isAlpha) : isPrintable c := by
  change (decide ('A'.val ≤ c.val ∧ c.val ≤ 'Z'.val) ||
    decide ('a'.val ≤ c.val) && decide (c.val ≤ 'z'.val)) = true at h
  have hbounds : 65 ≤ c.toNat ∧ c.toNat ≤ 90 ∨ 97 ≤ c.toNat ∧ c.toNat ≤ 122 := by
    simpa [UInt32.le_iff_toNat_le] using h
  rw [isPrintable, if_pos (by omega)]
  exact decide_eq_true (by omega)

theorem forall_mem_toDigits {p : Char → Prop} {base : Nat} (hbase : 1 < base)
    (h : ∀ d < base, p d.digitChar) (n : Nat) : ∀ c ∈ Nat.toDigits base n, p c := by
  induction n using Nat.strongRecOn with
  | ind n ih =>
    by_cases hn : n < base
    · rw [Nat.toDigits_of_lt_base hn]
      simpa using h n hn
    · have hsmaller : n / base < n := Nat.div_lt_self (by omega) hbase
      rw [Nat.toDigits_of_base_le hbase (Nat.le_of_not_lt hn)]
      refine List.forall_mem_append.mpr ⟨ih _ hsmaller, ?_⟩
      simpa using h _ (Nat.mod_lt n (by omega))

/-! ## Quoted texts -/

theorem printable_escape (c : Char) : Printable (escape c) := by
  unfold escape
  split
  iterate 6 simp [isPrintable]
  split
  · next h => simpa using h
  · have hdigits : Printable (Nat.toDigits 16 c.toNat) :=
      forall_mem_toDigits (by decide) (by decide) _
    simp [codePoint, hdigits, isPrintable]

theorem printable_quoted (s : String) : Printable (quoted s).toList := by
  have hescaped : Printable (s.toList.flatMap escape) := by
    intro c hc
    obtain ⟨d, -, hd⟩ := List.mem_flatMap.mp hc
    exact printable_escape d c hd
  simp [quoted, hescaped, isPrintable]

end Text

/-! ## Numbers -/

open Text in
/-- No number is written with any other characters than printable ones, finite or not. -/
theorem Decimal.Layout.printable_text {f : Layout} (hwhole : Printable f.wholeMark.toList)
    (hsign : Printable f.exponentSign.toList) (x : Float) : Printable (f.text x).toList :=
  forall_mem_text (fun _ => isPrintable_of_isDigit) (List.all_eq_true.mp (by decide)) hwhole hsign x

end Lox
