import Lox.Command.Host

/-!
Text as bytes, and bytes as lines. A text is read back from its bytes. No character but the line
feed has the byte of a line feed, so an input that is made of lines and their ends is cut into those
lines again (`linesOf_of_isInput`).
-/

namespace Lox.Command

/-! ## Texts -/

theorem toList_loop (bytes : ByteArray) (i : Nat) (done : List UInt8) :
    ByteArray.toList.loop bytes i done = done.reverse ++ bytes.data.toList.drop i := by
  fun_induction ByteArray.toList.loop bytes i done with
  | case1 i done h ih =>
    have hi : i < bytes.data.toList.length := h
    rw [ih, List.drop_eq_getElem_cons hi]
    simp [ByteArray.get!, h]
  | case2 i done h =>
    rw [List.drop_eq_nil_of_le (Nat.le_of_not_lt h)]
    simp

theorem toArray_bytesOfText (text : String) : (bytesOfText text).toArray = text.toUTF8.data := by
  simp [bytesOfText, ByteArray.toList, toList_loop]

theorem textOfBytes?_bytesOfText (text : String) : textOfBytes? (bytesOfText text) = some text := by
  rw [textOfBytes?, toArray_bytesOfText]
  exact dif_pos text.isValidUTF8

theorem bytesOfText_eq (text : String) :
    bytesOfText text = text.toList.flatMap String.utf8EncodeChar := by
  have hchars : text.toUTF8 = (String.ofList text.toList).toUTF8 := by rw [String.ofList_toList]
  have hbytes : (bytesOfText text).toArray.toList = text.toUTF8.data.toList := by
    rw [toArray_bytesOfText]
  rw [hchars, String.toUTF8_eq_toByteArray, String.toByteArray_ofList] at hbytes
  exact hbytes.trans List.toList_data_toByteArray

/-! ## Line ends -/

/-- A byte below 128 stands for a character and is no part of another one. -/
theorem toNat_eq_of_mem_utf8 {c : Char} {b : UInt8} (h : b ∈ String.utf8EncodeChar c)
    (hb : b.toNat < 128) : c.toNat = b.toNat := by
  have hc : c.toNat = c.val.toNat := rfl
  simp only [String.utf8EncodeChar] at h
  split at h
  · obtain rfl := List.mem_singleton.mp h
    rw [hc, UInt8.toNat_ofNat']
    omega
  · -- all bytes of a character that has more than one are above
    have hge : 128 ≤ b.toNat := by
      split at h
      · simp only [List.mem_cons, List.not_mem_nil, or_false] at h
        rcases h with rfl | rfl <;> rw [UInt8.toNat_ofNat'] <;> omega
      split at h
      · simp only [List.mem_cons, List.not_mem_nil, or_false] at h
        rcases h with rfl | rfl | rfl <;> rw [UInt8.toNat_ofNat'] <;> omega
      · simp only [List.mem_cons, List.not_mem_nil, or_false] at h
        rcases h with rfl | rfl | rfl | rfl <;> rw [UInt8.toNat_ofNat'] <;> omega
    omega

theorem lineFeed_not_mem {line : String} (h : '\n' ∉ line.toList) : 10 ∉ bytesOfText line := by
  intro hmem
  rw [bytesOfText_eq, List.mem_flatMap] at hmem
  obtain ⟨c, hc, hb⟩ := hmem
  have hten : c.toNat = 10 := toNat_eq_of_mem_utf8 hb (by decide)
  exact h ((Char.toNat_inj.mp hten : c = '\n') ▸ hc)

theorem getLast?_bytesOfText_ne {line : String} (h : line.toList.getLast? ≠ some '\r') :
    (bytesOfText line).getLast? ≠ some 13 := by
  rw [bytesOfText_eq]
  intro hlast
  rcases List.eq_nil_or_concat line.toList with hnil | ⟨chars, c, hchars⟩
  · rw [hnil] at hlast
    cases hlast
  · have hb := List.getLast?_eq_some_getLast (String.utf8EncodeChar_ne_nil (c := c))
    rw [hchars, List.concat_eq_append, List.flatMap_append, List.flatMap_singleton,
      List.getLast?_append, hb, Option.some_or] at hlast
    have hreturn : c.toNat = 13 :=
      toNat_eq_of_mem_utf8 (List.mem_of_getLast? (hb.trans hlast)) (by decide)
    have hc : c = '\r' := Char.toNat_inj.mp hreturn
    rw [hchars, List.concat_eq_append, List.getLast?_concat, hc] at h
    exact h rfl

/-! ## Lines -/

/-- The bytes are made of these lines, each with its end: a line feed, which a carriage return may
precede. The last line may have no end, and then it is not empty. -/
inductive IsInput : List String → List UInt8 → Prop
  | nil : IsInput [] []
  | unended {line : String} (hline : '\n' ∉ line.toList) (hne : line ≠ "") :
    IsInput [line] (bytesOfText line)
  | lineFeed {line : String} {lines : List String} {bytes : List UInt8}
    (hline : '\n' ∉ line.toList) (hlast : line.toList.getLast? ≠ some '\r')
    (h : IsInput lines bytes) : IsInput (line :: lines) (bytesOfText line ++ 10 :: bytes)
  | carriageReturn {line : String} {lines : List String} {bytes : List UInt8}
    (hline : '\n' ∉ line.toList) (h : IsInput lines bytes) :
    IsInput (line :: lines) (bytesOfText line ++ 13 :: 10 :: bytes)

theorem linesOf_append {line : List UInt8} (h : 10 ∉ line) (done bytes : List UInt8) :
    linesOf done (line ++ bytes) = linesOf (line.reverse ++ done) bytes := by
  induction line generalizing done with
  | nil => rfl
  | cons b line ih =>
    obtain ⟨hb, hline⟩ := List.ne_and_not_mem_of_not_mem_cons h
    rw [List.cons_append, linesOf, if_neg hb.symm, ih hline]
    simp

theorem linesOf_lineFeed {line : List UInt8} (h : 10 ∉ line) (bytes : List UInt8) :
    linesOf [] (line ++ 10 :: bytes) = withoutBreak line true :: linesOf [] bytes := by
  rw [linesOf_append h, linesOf, if_pos rfl]
  simp

theorem linesOf_of_isInput {lines : List String} {bytes : List UInt8} (h : IsInput lines bytes) :
    linesOf [] bytes = lines.map bytesOfText := by
  induction h with
  | nil => rfl
  | @unended line hline hne =>
    have hbytes : bytesOfText line ≠ [] := by
      intro hnil
      have htext := textOfBytes?_bytesOfText line
      rw [hnil] at htext
      exact hne (Option.some.inj htext).symm
    -- without a line feed all is gathered up to the end, where only a line of no bytes is left out
    have hcut := linesOf_append (lineFeed_not_mem hline) [] []
    rw [List.append_nil, List.append_nil] at hcut
    rw [hcut, linesOf, if_neg (by simpa using hbytes)]
    simp [withoutBreak]
  | lineFeed hline hlast h ih =>
    have hkept := getLast?_bytesOfText_ne hlast
    rw [linesOf_lineFeed (lineFeed_not_mem hline), ih]
    simp [withoutBreak, hkept]
  | @carriageReturn line lines bytes hline h ih =>
    -- the return is gathered with the line and taken off at the feed
    have hfeed : 10 ∉ bytesOfText line ++ [13] := by simp [lineFeed_not_mem hline]
    rw [List.append_cons, linesOf_lineFeed hfeed, ih]
    simp [withoutBreak]

end Lox.Command
