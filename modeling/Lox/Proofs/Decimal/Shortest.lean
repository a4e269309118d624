import Lox.Decimal.Shortest

/-!
The search for the fewest digits. It never runs out of grids, as the last one that it tries is finer
than a quarter of the last binary place, so every finite number other than zero has digits of its
own (`shortest_digits_pos`). A number has digits or is zero exactly if it is finite
(`isFinite_iff_decode`).
-/

namespace Lox.Decimal

/-! ## Powers of ten between powers of two -/

theorem ten_pow_le_two_pow {k n : Nat} (h : 196 * k ≤ 59 * n) : Nat.pow 10 k ≤ Nat.pow 2 n := by
  refine (Nat.pow_le_pow_iff_left (show 59 ≠ 0 by decide)).mp ?_
  calc (10 ^ k) ^ 59 = (10 ^ 59) ^ k := Nat.pow_right_comm 10 k 59
    _ ≤ (2 ^ 196) ^ k := Nat.pow_le_pow_left (by decide) k
    _ = 2 ^ (196 * k) := (Nat.pow_mul ..).symm
    _ ≤ 2 ^ (59 * n) := Nat.pow_le_pow_right (by decide) h
    _ = (2 ^ n) ^ 59 := by rw [Nat.mul_comm, Nat.pow_mul]

theorem two_pow_le_ten_pow {k n : Nat} (h : 28 * n ≤ 93 * k) : Nat.pow 2 n ≤ Nat.pow 10 k := by
  refine (Nat.pow_le_pow_iff_left (show 93 ≠ 0 by decide)).mp ?_
  calc (2 ^ n) ^ 93 = (2 ^ 93) ^ n := Nat.pow_right_comm 2 n 93
    _ ≤ (10 ^ 28) ^ n := Nat.pow_le_pow_left (by decide) n
    _ = 10 ^ (28 * n) := (Nat.pow_mul ..).symm
    _ ≤ 10 ^ (93 * k) := Nat.pow_le_pow_right (by decide) h
    _ = (10 ^ k) ^ 93 := by rw [Nat.mul_comm, Nat.pow_mul]

/-! ## Ratios -/

theorem Ratio.num_pos_of_scaled {n : Nat} (h : 0 < n) (e k : Int) :
    0 < ((Ratio.scaled n e).shift k).num := by
  have hscaled : 0 < (Ratio.scaled n e).num := by
    unfold scaled
    split
    · rw [Nat.shiftLeft_eq]
      exact Nat.mul_pos h (Nat.pow_pos (by decide))
    · exact h
  unfold shift
  split
  · exact hscaled
  · exact Nat.mul_pos hscaled (Nat.pow_pos (by decide))

/-- Where `10 ^ k` is at most `2 ^ e`, as the two bounds make sure, a whole number of steps of
`2 ^ e` is at least as many steps of `10 ^ k`. -/
theorem Ratio.exists_shift_scaled {e k : Int} (hupper : 196 * k ≤ 59 * e)
    (hlower : 93 * k ≤ 28 * e) :
    ∃ a b, 0 < b ∧ b ≤ a ∧ ∀ n, (Ratio.scaled n e).shift k = ⟨n * a, b⟩ := by
  have hshift (n m : Nat) : n <<< m = n * 2 ^ m := Nat.shiftLeft_eq n m
  by_cases hk : 0 ≤ k
  · have he : 0 ≤ e := by omega
    refine ⟨2 ^ e.toNat, 10 ^ k.toNat, Nat.pow_pos (by decide),
      ten_pow_le_two_pow (by omega), fun n => ?_⟩
    simp [scaled, shift, hk, he, hshift]
  · by_cases he : 0 ≤ e
    · refine ⟨2 ^ e.toNat * 10 ^ (-k).toNat, 1, Nat.one_pos,
        Nat.mul_pos (Nat.pow_pos (by decide)) (Nat.pow_pos (by decide)), fun n => ?_⟩
      simp [scaled, shift, hk, he, hshift, Nat.mul_assoc]
    · refine ⟨10 ^ (-k).toNat, 2 ^ (-e).toNat, Nat.pow_pos (by decide),
        two_pow_le_ten_pow (by omega), fun n => ?_⟩
      simp [scaled, shift, hk, he, hshift]

/-! ## Grids -/

namespace Magnitude

variable {tie : Tie} {m : Magnitude}

theorem low_pos (hm : 0 < m.significand) : 0 < m.low := by
  unfold low quarters
  split <;> omega

theorem low_lt_quarters (hm : 0 < m.significand) : m.low + 1 ≤ m.quarters := by
  unfold low quarters
  split <;> omega

/-- Nothing that rounds to the number is zero. -/
theorem pos_of_admits (hm : 0 < m.significand) {n : Nat} {k : Int} (h : m.admits n k) : 0 < n := by
  have hnum := Ratio.num_pos_of_scaled (low_pos hm) (m.exponent - 2) k
  refine Nat.pos_of_ne_zero ?_
  rintro rfl
  unfold admits at h
  dsimp only at h
  split at h <;> simp at h
  omega

theorem digits_pos_of_onGrid? (hm : 0 < m.significand) {k : Int} {d : Digits}
    (h : m.onGrid? tie k = some d) : 0 < d.digits := by
  have hpick {n : Nat} (hn : 0 < n) (upper : Bool) : 0 < if upper then n + 1 else n := by
    cases upper with
    | true => exact Nat.succ_pos n
    | false => exact hn
  unfold onGrid? at h
  dsimp only at h
  split at h
  · cases h
  · next hbelow _ =>
    cases h
    exact pos_of_admits hm hbelow
  · next hbelow hupper =>
    cases h
    exact Nat.succ_pos _
  · next hbelow hupper =>
    cases h
    exact hpick (pos_of_admits hm hbelow) _

/-- On a grid finer than a quarter of the last binary place the multiple below the number rounds
to it. -/
theorem exists_onGrid? (tie : Tie) (hm : 0 < m.significand) {k : Int}
    (hupper : 196 * k ≤ 59 * (m.exponent - 2)) (hlower : 93 * k ≤ 28 * (m.exponent - 2)) :
    ∃ d, m.onGrid? tie k = some d := by
  obtain ⟨a, b, hb, hab, hratio⟩ := Ratio.exists_shift_scaled hupper hlower
  have hbelow : m.admits (m.quarters * a / b) k := by
    -- the multiple below is less than one step of the grid away, and that is at most a quarter
    have hle : m.quarters * a / b * b ≤ m.quarters * a := Nat.div_mul_le_self _ _
    have hlt : m.quarters * a < m.quarters * a / b * b + b := Nat.lt_div_mul_add hb
    have hlow : (m.low + 1) * a ≤ m.quarters * a := Nat.mul_le_mul_right a (low_lt_quarters hm)
    have hhigh : m.high * a = m.quarters * a + 2 * a := by rw [high, Nat.add_mul]
    rw [Nat.add_mul] at hlow
    unfold admits
    rw [hratio, hratio]
    dsimp only
    split <;> simp <;> omega
  unfold onGrid?
  rw [hratio]
  dsimp only
  rw [hbelow]
  split
  · next h _ => cases h
  · exact ⟨_, rfl⟩
  · exact ⟨_, rfl⟩
  · exact ⟨_, rfl⟩

/-! ## The search -/

/-- The induction is on the steps that are left. -/
theorem digits_pos_of_search (hm : 0 < m.significand) {steps : Nat} {k : Int} {j : Nat}
    (hj : j < steps) (h : ∃ d, m.onGrid? tie (k - j) = some d) :
    0 < (m.search tie steps k).digits := by
  induction steps generalizing k j with
  | zero => cases hj
  | succ steps ih =>
    unfold search
    cases hgrid : m.onGrid? tie k with
    | some d => exact digits_pos_of_onGrid? hm hgrid
    | none =>
      cases j with
      | zero =>
        obtain ⟨d, hd⟩ := h
        rw [Int.natCast_zero, Int.sub_zero, hgrid] at hd
        cases hd
      | succ j =>
        refine ih (Nat.lt_of_succ_lt_succ hj) ?_
        have hk : k - 1 - j = k - (j + 1 : Nat) := by omega
        rwa [hk]

/-- Bounds on the numbers of 64 bits. -/
structure Fits (m : Magnitude) : Prop where
  significand_pos : 0 < m.significand
  significand_lt : m.significand < 1 <<< 53
  le_exponent : -1074 ≤ m.exponent
  exponent_le : m.exponent ≤ 971

/-- The last grid that is tried is fine enough. -/
theorem shortest_digits_pos (tie : Tie) (h : m.Fits) : 0 < (m.shortest tie).digits := by
  have hlog : m.high.log2 < 55 := by
    have hlt := h.significand_lt
    have hhigh : m.high < 2 ^ 55 := by
      unfold high quarters
      omega
    exact (Nat.log2_lt (by unfold high; omega)).mpr hhigh
  have hle := h.le_exponent
  have hle' := h.exponent_le
  -- the last of the 24 grids lies 23 places below the ceiling
  refine digits_pos_of_search h.significand_pos (show 23 < 24 by decide) ?_
  refine exists_onGrid? tie h.significand_pos ?_ ?_
  · unfold ceiling
    omega
  · unfold ceiling
    omega

end Magnitude

/-! ## Floating-point numbers -/

theorem fits_of_decode {x : Float} {negative : Bool} {m : Magnitude}
    (h : decode x = .finite negative m) : m.Fits := by
  have hbit : leadingBit = 4503599627370496 := rfl
  have hfraction : x.toBits.toNat % leadingBit < leadingBit := Nat.mod_lt _ (by decide)
  have hexponent : (x.toBits.toNat >>> 52) % 2048 < 2048 := Nat.mod_lt _ (by decide)
  unfold decode at h
  dsimp only at h
  generalize x.toBits.toNat % leadingBit = fraction at h hfraction
  generalize (x.toBits.toNat >>> 52) % 2048 = exponent at h hexponent
  rw [hbit] at h hfraction
  split at h
  · split at h <;> cases h
  · split at h
    · split at h
      · cases h
      · cases h
        constructor <;> dsimp only <;> omega
    · cases h
      constructor <;> dsimp only <;> omega

open Float.Model in
theorem isFinite_iff_exponent (x : Float) :
    x.isFinite ↔ (x.toBits.toNat >>> 52) % 2048 ≠ 2047 := by
  let exponent : BitVec 11 := @UnpackedFloat.unpackExponent Format.binary64 x.toBits.toBitVec
  let fraction : BitVec 52 := @UnpackedFloat.unpackMantissa Format.binary64 x.toBits.toBitVec
  have hexponent : exponent.toNat = (x.toBits.toNat >>> 52) % 2048 := by
    simp [exponent, UnpackedFloat.unpackExponent]
  have hones : exponent = -1#11 ↔ (x.toBits.toNat >>> 52) % 2048 = 2047 := by
    rw [← BitVec.toNat_inj, hexponent]
    rfl
  have hfinite {u : UnpackedFloat}
      (h : UnpackedFloat.unpack Format.binary64 x.toBits.toBitVec = u) :
      x.isFinite = u.isFinite := congrArg UnpackedFloat.isFinite h
  rw [ne_eq, ← hones]
  by_cases h : exponent = -1#11
  · refine iff_of_false ?_ (not_not_intro h)
    by_cases hzero : fraction = 0#52
    · rw [hfinite ((if_pos h).trans (if_pos hzero))]
      exact Bool.false_ne_true
    · rw [hfinite ((if_pos h).trans (if_neg hzero))]
      exact Bool.false_ne_true
  · refine iff_of_true ?_ h
    by_cases hsmall : exponent = 0#11
    · by_cases hzero : fraction = 0#52
      · exact hfinite ((if_neg h).trans ((if_pos hsmall).trans (dif_pos hzero)))
      · exact hfinite ((if_neg h).trans ((if_pos hsmall).trans (dif_neg hzero)))
    · exact hfinite ((if_neg h).trans (if_neg hsmall))

/-- The numbers with digits, and the zeros, are those that are finite. -/
theorem isFinite_iff_decode (x : Float) : x.isFinite ↔
    (∃ negative, decode x = .zero negative) ∨ ∃ negative m, decode x = .finite negative m := by
  rw [isFinite_iff_exponent]
  unfold decode
  by_cases h : (x.toBits.toNat >>> 52) % 2048 = 2047
  · refine iff_of_false (not_not_intro h) ?_
    rw [if_pos h]
    split <;> simp
  · refine iff_of_true h ?_
    rw [if_neg h]
    split
    · split
      · exact .inl ⟨_, rfl⟩
      · exact .inr ⟨_, _, rfl⟩
    · exact .inr ⟨_, _, rfl⟩

end Lox.Decimal
