import Lox.Proofs.Json.Grammar
import Lox.Proofs.Json.Steps

/-!
Strings as they may be written. The reader takes a string for the characters that its pieces denote,
and refuses it where half of a pair stands alone (`stringBody_append`); a string that is passed over
may be made of any pieces (`passString_append`).
-/

namespace Lox.Json.Reader

/-! ## Escapes -/

theorem hexDigit?_of_mem {d : Char × Nat} (h : d ∈ hexDigits) : hexDigit? d.1 = some d.2 := by
  have hall : ∀ d ∈ hexDigits, hexDigit? d.1 = some d.2 := by decide
  exact hall d h

theorem hexQuad_append {quad : List Char} {n : Nat} (h : Quad quad n) (rest : List Char) :
    hexQuad (quad ++ rest) = .ok (n, rest) := by
  cases h with
  | digits ha hb hc hd =>
    have ha := hexDigit?_of_mem ha
    have hb := hexDigit?_of_mem hb
    have hc := hexDigit?_of_mem hc
    have hd := hexDigit?_of_mem hd
    simp [hexQuad, ha, hb, hc, hd]

theorem plainEscape?_of_mem {letter c : Char} (h : (letter, c) ∈ escapes) :
    plainEscape? letter = some c ∧ letter ≠ 'u' := by
  have hall : ∀ e ∈ escapes, plainEscape? e.1 = some e.2 ∧ e.1 ≠ 'u' := by decide
  exact hall _ h

theorem escaped_letter {letter c : Char} (h : (letter, c) ∈ escapes) (rest : List Char) :
    escaped (letter :: rest) = .ok (c, rest) := by
  obtain ⟨hplain, hu⟩ := plainEscape?_of_mem h
  unfold escaped
  split
  · contradiction
  · next heq => exact absurd (List.cons.inj heq).1 hu
  · next d more heq =>
    obtain ⟨rfl, rfl⟩ := List.cons.inj heq
    rw [hplain]

theorem escaped_unit {quad : List Char} {n : Nat} (h : Quad quad n) (rest : List Char) :
    escaped ('u' :: (quad ++ rest)) =
      if isLowSurrogate n then .error ⟨.loneSurrogate, rest, 0⟩
      else if isHighSurrogate n then lowHalf n rest
      else .ok (Char.ofNat n, rest) := by
  have hquad := hexQuad_append h rest
  simp only [escaped, hquad, bind, Except.bind]
  rfl

theorem lowHalf_unit {quad : List Char} {m : Nat} (h : Quad quad m) (n : Nat) (rest : List Char) :
    lowHalf n ('\\' :: 'u' :: (quad ++ rest)) =
      if isLowSurrogate m then
        .ok (Char.ofNat (0x10000 + (n - 0xD800) * 0x400 + (m - 0xDC00)), rest)
      else .error ⟨.loneSurrogate, rest, 0⟩ := by
  have hquad := hexQuad_append h rest
  simp only [lowHalf, hquad, bind, Except.bind]
  rfl

/-- The second half of a pair is another code unit. -/
theorem lowHalf_error {text : List Char} (h : ∀ rest, text ≠ '\\' :: 'u' :: rest) (n : Nat) :
    ∃ flaw, lowHalf n text = .error flaw := by
  unfold lowHalf
  split
  · exact ⟨_, rfl⟩
  · exact ⟨_, rfl⟩
  · next rest => exact absurd rfl (h rest)
  · exact ⟨_, rfl⟩
  · exact ⟨_, rfl⟩

/-! ## Strings that are read -/

theorem stringBody_plain {c : Char} (hquote : c ≠ '"') (hbackslash : c ≠ '\\')
    (hcontrol : 0x20 ≤ c.toNat) (done text : List Char) :
    stringBody done (c :: text) = stringBody (c :: done) text := by
  rw [stringBody, if_neg hquote, if_neg hbackslash, if_neg (Nat.not_lt_of_le hcontrol)]

theorem stringBody_escaped {done text rest : List Char} {c : Char}
    (h : escaped text = .ok (c, rest)) :
    stringBody done ('\\' :: text) = stringBody (c :: done) rest := by
  rw [stringBody, if_neg (by decide), if_pos rfl]
  split
  · next e he =>
    rw [h] at he
    cases he
  · next d rest' hd =>
    rw [h] at hd
    cases hd
    rfl

theorem stringBody_error {text : List Char} {flaw : Flaw} (h : escaped text = .error flaw)
    (done : List Char) : stringBody done ('\\' :: text) = .error flaw := by
  rw [stringBody, if_neg (by decide), if_pos rfl]
  split
  · next e he =>
    rw [h] at he
    cases he
    rfl
  · next d rest hd =>
    rw [h] at hd
    cases hd

/-- What reading a string comes to when the characters `done` have been read: they and the ones
that follow, or a flaw where nothing is denoted. -/
def Comes (result : Except Flaw (String × List Char)) (done rest : List Char) :
    Option (List Char) → Prop
  | some cs => result = .ok (String.ofList (done.reverse ++ cs), rest)
  | none => ∃ flaw, result = .error flaw

theorem Comes.cons {result : Except Flaw (String × List Char)} {c : Char} {done rest : List Char}
    {cs? : Option (List Char)} (h : Comes result (c :: done) rest cs?) :
    Comes result done rest (cs?.map (c :: ·)) := by
  cases cs? with
  | none => exact h
  | some cs => simpa [Comes] using h

/-- A first half with no second one behind it. -/
theorem comes_of_lowHalf {quad text : List Char} {n : Nat} (hquad : Quad quad n)
    (hlow : ¬isLowSurrogate n) (hhigh : isHighSurrogate n)
    (h : ∃ flaw, lowHalf n text = .error flaw) (done rest : List Char) :
    Comes (stringBody done ('\\' :: 'u' :: (quad ++ text))) done rest none := by
  obtain ⟨flaw, hflaw⟩ := h
  refine ⟨flaw, stringBody_error ?_ done⟩
  rw [escaped_unit hquad, if_neg hlow, if_pos hhigh, hflaw]

/-- The induction is on the pieces, a pair of code units being taken at once. -/
theorem stringBody_append {text : List Char} {pieces : List Piece} (h : StringText text pieces)
    (done rest : List Char) :
    Comes (stringBody done (text ++ '"' :: rest)) done rest (Piece.decode pieces) := by
  fun_induction Piece.decode pieces generalizing text done with
  | case1 =>
    cases h
    simp [Comes, stringBody]
  | case2 c pieces ih =>
    cases h with
    | plain hquote hbackslash hcontrol h =>
      rw [List.cons_append, stringBody_plain hquote hbackslash hcontrol]
      exact (ih h _).cons
    | escape hc h =>
      rw [List.cons_append, List.cons_append, stringBody_escaped (escaped_letter hc _)]
      exact (ih h _).cons
  | case3 n pieces hn ih =>
    cases h with
    | unit hquad h =>
      have hlow : ¬isLowSurrogate n := by simp [isLowSurrogate]; omega
      have hhigh : ¬isHighSurrogate n := by simp [isHighSurrogate]; omega
      rw [List.cons_append, List.cons_append, List.append_assoc,
        stringBody_escaped ((escaped_unit hquad _).trans (by rw [if_neg hlow, if_neg hhigh]))]
      exact (ih h _).cons
  | case4 n hn m pieces hm ih =>
    cases h with
    | unit hquad h =>
      cases h with
      | unit hquad' h =>
        have hlow : ¬isLowSurrogate n := by simp [isLowSurrogate]; omega
        have hhigh : isHighSurrogate n := by simp [isHighSurrogate]; omega
        have hlow' : isLowSurrogate m := by simp [isLowSurrogate]; omega
        simp only [List.cons_append, List.append_assoc]
        rw [stringBody_escaped ((escaped_unit hquad _).trans (by
          rw [if_neg hlow, if_pos hhigh, lowHalf_unit hquad', if_pos hlow']))]
        exact (ih h _).cons
  | case5 n hn m pieces hm =>
    cases h with
    | @unit quad _ _ _ hquad h =>
      cases h with
      | @unit quad' more _ _ hquad' h =>
        simp only [List.cons_append, List.append_assoc]
        by_cases hlow : isLowSurrogate n
        · exact ⟨_, stringBody_error ((escaped_unit hquad _).trans (if_pos hlow)) done⟩
        · have hhigh : isHighSurrogate n := by
            simp [isHighSurrogate, isLowSurrogate] at hlow ⊢; omega
          have hlow' : ¬isLowSurrogate m := by
            simp [isHighSurrogate, isLowSurrogate] at hhigh ⊢; omega
          refine comes_of_lowHalf hquad hlow hhigh ?_ done rest
          rw [lowHalf_unit hquad', if_neg hlow']
          exact ⟨_, rfl⟩
  | case6 n pieces hn hnext =>
    cases h with
    | @unit quad more _ _ hquad h =>
      simp only [List.cons_append, List.append_assoc]
      by_cases hlow : isLowSurrogate n
      · exact ⟨_, stringBody_error ((escaped_unit hquad _).trans (if_pos hlow)) done⟩
      · have hhigh : isHighSurrogate n := by
          simp [isHighSurrogate, isLowSurrogate] at hlow ⊢; omega
        refine comes_of_lowHalf hquad hlow hhigh (lowHalf_error (fun tail htail => ?_) n) done rest
        -- what follows is no code unit, so it does not look like one
        cases h with
        | nil => cases htail
        | plain hquote hbackslash hcontrol h =>
          exact hbackslash (List.cons.inj htail).1
        | escape hc h =>
          exact (plainEscape?_of_mem hc).2 (List.cons.inj (List.cons.inj htail).2).1
        | unit hquad' h => exact hnext _ _ rfl

theorem string_of_denotes {text : List Char} {s : String} (h : Denotes text s) (rest : List Char) :
    string (text ++ '"' :: rest) = .ok (s, rest) := by
  obtain ⟨pieces, htext, hdecode⟩ := h
  have hread := stringBody_append htext [] rest
  rw [hdecode] at hread
  simpa [string, Comes, String.ofList_toList] using hread

theorem string_of_not_denotes {text : List Char} {pieces : List Piece}
    (htext : StringText text pieces) (h : ∀ s, ¬Denotes text s) (rest : List Char) :
    ∃ flaw, string (text ++ '"' :: rest) = .error flaw := by
  have hread := stringBody_append htext [] rest
  cases hdecode : Piece.decode pieces with
  | none =>
    rw [hdecode] at hread
    exact hread
  | some cs => exact absurd ⟨pieces, htext, by rw [hdecode, String.toList_ofList]⟩ (h (.ofList cs))

/-- The text between the quotes is read as what it denotes. -/
theorem outcome_string {text : List Char} {pieces : List Piece} (htext : StringText text pieces)
    (rest : List Char) : Outcome (Denotes text) rest (string (text ++ '"' :: rest)) := by
  by_cases h : ∃ s, Denotes text s
  · obtain ⟨s, hs⟩ := h
    rw [string_of_denotes hs]
    refine .ok fun s' => ⟨fun hs' => ?_, fun heq => heq ▸ hs⟩
    cases (string_of_denotes hs rest).symm.trans (string_of_denotes hs' rest)
    rfl
  · obtain ⟨flaw, hflaw⟩ := string_of_not_denotes htext (not_exists.mp h) rest
    rw [hflaw]
    exact .error (not_exists.mp h)

/-! ## Strings as they are written -/

theorem mem_hexDigits {n : Nat} (h : n < 16) : (Nat.digitChar n, n) ∈ hexDigits := by
  have hall : ∀ n < 16, (Nat.digitChar n, n) ∈ hexDigits := by decide
  exact hall n h

/-- Four digits denote a control character, of which the first two are zero. -/
theorem quad_digitChar {n : Nat} (h : n < 0x20) :
    Quad ['0', '0', Nat.digitChar (n / 16), Nat.digitChar (n % 16)] n := by
  have hquad : Quad ['0', '0', Nat.digitChar (n / 16), Nat.digitChar (n % 16)]
      (16 * (16 * (16 * 0 + 0) + n / 16) + n % 16) :=
    .digits (mem_hexDigits (show 0 < 16 by decide)) (mem_hexDigits (show 0 < 16 by decide))
      (mem_hexDigits (show n / 16 < 16 by omega)) (mem_hexDigits (show n % 16 < 16 by omega))
  have hn : 16 * (16 * (16 * 0 + 0) + n / 16) + n % 16 = n := by omega
  rwa [hn] at hquad

/-- A character is written as one piece, which denotes it. -/
theorem exists_piece (c : Char) : ∃ piece,
    (∀ {text pieces}, StringText text pieces → StringText (escape c ++ text) (piece :: pieces)) ∧
      ∀ pieces, Piece.decode (piece :: pieces) = (Piece.decode pieces).map (c :: ·) := by
  unfold escape
  split
  -- the last case has all characters without an escape by a letter of their own
  case h_8 hquote hbackslash _ _ _ _ _ =>
    by_cases hc : c.toNat < 0x20
    · refine ⟨.unit c.toNat, fun h => ?_, fun pieces => ?_⟩
      · rw [if_pos hc]
        exact .unit (quad_digitChar hc) h
      · rw [Piece.decode.eq_def]
        simp only
        rw [if_pos (.inl (by omega)), Char.ofNat_toNat]
    · refine ⟨.character c, fun h => ?_, fun pieces => rfl⟩
      rw [if_neg hc]
      exact .plain hquote hbackslash (Nat.le_of_not_lt hc) h
  all_goals exact ⟨.character _, fun h => .escape (by decide) h, fun pieces => rfl⟩

/-- What is written between the quotes of a string denotes it. -/
theorem denotes_escape (s : String) : Denotes (s.toList.flatMap escape) s := by
  unfold Denotes
  induction s.toList with
  | nil => exact ⟨[], .nil, rfl⟩
  | cons c cs ih =>
    obtain ⟨pieces, htext, hdecode⟩ := ih
    obtain ⟨piece, hpiece, hc⟩ := exists_piece c
    exact ⟨piece :: pieces, hpiece htext, by rw [hc, hdecode, Option.map_some]⟩

/-! ## Strings that are passed over -/

theorem afterEscape_letter {letter c : Char} (h : (letter, c) ∈ escapes) (rest : List Char) :
    afterEscape (letter :: rest) = .ok rest := by
  obtain ⟨hplain, hu⟩ := plainEscape?_of_mem h
  unfold afterEscape
  split
  · contradiction
  · next heq => exact absurd (List.cons.inj heq).1 hu
  · next d more heq =>
    obtain ⟨rfl, rfl⟩ := List.cons.inj heq
    rw [hplain]

theorem afterEscape_unit {quad : List Char} {n : Nat} (h : Quad quad n) (rest : List Char) :
    afterEscape ('u' :: (quad ++ rest)) = .ok rest := by
  rw [afterEscape, hexQuad_append h]
  rfl

theorem passString_escape {text rest : List Char} (h : afterEscape text = .ok rest) :
    passString ('\\' :: text) = passString rest := by
  rw [passString, if_neg (by decide), if_pos rfl]
  split
  · next e he =>
    rw [h] at he
    cases he
  · next rest' hrest =>
    rw [h] at hrest
    cases hrest
    rfl

theorem passString_append {text : List Char} {pieces : List Piece} (h : StringText text pieces)
    (rest : List Char) : passString (text ++ '"' :: rest) = .ok rest := by
  induction h with
  | nil => rw [List.nil_append, passString, if_pos rfl]
  | plain hquote hbackslash hcontrol h ih =>
    rw [List.cons_append, passString, if_neg hquote, if_neg hbackslash,
      if_neg (Nat.not_lt_of_le hcontrol), ih]
  | escape hc h ih =>
    rw [List.cons_append, List.cons_append, passString_escape (afterEscape_letter hc _), ih]
  | unit hquad h ih =>
    rw [List.cons_append, List.cons_append, List.append_assoc,
      passString_escape (afterEscape_unit hquad _), ih]

theorem skipString_append {text : List Char} {pieces : List Piece} (h : StringText text pieces)
    (rest : List Char) : skipString (text ++ '"' :: rest) = .ok ((), rest) := by
  rw [skipString, passString_append h]
  rfl

end Lox.Json.Reader
