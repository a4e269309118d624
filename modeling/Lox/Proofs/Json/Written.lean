import Lox.Proofs.Json.Decoding

/-!
What the texts of values mean. In any style that sets items apart by blanks, the text of a value is
one JSON text and means the value (`means_write`), so it is decoded to it again. Numbers that are
not finite have no text of their own and are decoded to null, as null itself is.
-/

namespace Lox.Json

/-- What a number is decoded to: its text, if it has one. -/
def Datum.ofFloat (x : Float) : Datum :=
  match decimals.finite? x with
  | some s => .decimal s
  | none => .null

mutual

/-- What a value is decoded to. -/
def datum : Json → Datum
  | null => .null
  | boolean b => .boolean b
  | integer n => .integer n
  | float x => .ofFloat x
  | text s => .text s
  | list items => .list (itemData items)
  | object members => .object (memberData members)

def itemData : List Json → List Datum
  | [] => []
  | item :: items => datum item :: itemData items

def memberData : List (String × Json) → List (String × Datum)
  | [] => []
  | (key, value) :: members => (key, datum value) :: memberData members

end

/-- The style puts nothing but blanks between the parts of a text. -/
structure Style.IsSpaced (style : Style) : Prop where
  newline : ∀ depth, IsGap (style.newline depth)
  afterKey : ∃ gap, IsGap gap ∧ style.afterKey = ':' :: gap

theorem Style.isSpaced_indented : Style.indented.IsSpaced := by
  refine ⟨fun depth c hc => ?_, [' '], by decide, rfl⟩
  rcases List.mem_cons.mp hc with rfl | hc
  · decide
  · rw [List.eq_of_mem_replicate hc]
    decide

/-! ## Scalars -/

theorem means_natural (n : Nat) : Means .value (Nat.toDigits 10 n) (.integer n) := by
  have hmeans := Means.integer (Reader.whole_toDigits n)
  rwa [Nat.ofDigitChars_ten_toDigits] at hmeans

theorem means_float (x : Float) :
    Means .value ((decimals.finite? x).getD "null").toList (Datum.ofFloat x) := by
  unfold Datum.ofFloat
  cases h : decimals.finite? x with
  | none => exact .null
  | some s =>
    obtain ⟨body, hbody, hs⟩ := IsDecimal.of_finite? h
    have hofList : String.ofList s.toList = s := String.ofList_toList
    rcases hs with hs | hs
    · have hmeans := Means.decimal hbody
      rwa [← hs, hofList] at hmeans
    · have hmeans := Means.negative hbody.1
      rwa [← hs, hofList] at hmeans

theorem means_quote (s : String) : Means .value (quote s) (.text s) :=
  .text (Reader.denotes_escape s)

theorem Datum.ofFloat_eq_null_iff (x : Float) : Datum.ofFloat x = .null ↔ x.isFinite = false := by
  rw [← finite?_eq_none_iff]
  unfold Datum.ofFloat
  cases decimals.finite? x <;> simp

/-! ## Brackets -/

/-- The text of an item of a bracket. -/
inductive ItemMeans (bracket : Bracket) : List Char → bracket.Item → Prop
  | item {lead value : List Char} {make : Datum → bracket.Item} {d : Datum}
    (hlead : Leads bracket lead make) (hvalue : Means .value value d) :
    ItemMeans bracket (lead ++ value) (make d)

section
variable {style : Style} (hstyle : style.IsSpaced)
include hstyle

theorem leads_key (key : String) :
    Leads .object (quote key ++ style.afterKey) fun d => (key, d) := by
  obtain ⟨gap, hgap, hafter⟩ := hstyle.afterKey
  have hleads := Leads.object (.key isGap_nil) (Reader.denotes_escape key) hgap
  simpa [quote, hafter] using hleads

variable {bracket : Bracket} {texts : List (List Char)} {items : List bracket.Item}

/-- The induction is on the items behind the first one. -/
theorem means_separated {text : List Char} {item : bracket.Item} (depth depth' : Nat)
    (hitem : ItemMeans bracket text item) (hitems : List.Forall₂ (ItemMeans bracket) texts items) :
    Means (.items bracket) (text ++ (texts.flatMap (fun i => ',' :: style.newline depth ++ i) ++
      (style.newline depth' ++ [bracket.closing]))) (item :: items) := by
  induction hitems generalizing text item with
  | nil =>
    cases hitem with
    | item hlead hvalue =>
      rw [List.flatMap_nil, List.nil_append, List.append_assoc]
      exact .last hlead hvalue (hstyle.newline depth')
  | cons hnext hitems ih =>
    cases hitem with
    | item hlead hvalue =>
      -- the next item takes the place of the first one, behind a comma
      have hrest := ih hnext
      have hmeans := Means.more hlead hvalue isGap_nil (hstyle.newline depth) hrest
      simpa using hmeans

theorem means_enclose (depth : Nat) (hitems : List.Forall₂ (ItemMeans bracket) texts items) :
    Means .value (style.enclose depth bracket.opening bracket.closing texts)
      (bracket.collect items) := by
  cases hitems with
  | nil => exact .empty bracket isGap_nil
  | cons hitem hitems =>
    have hseparated := means_separated hstyle (depth + 1) depth hitem hitems
    have hmeans := Means.filled (hstyle.newline (depth + 1)) hseparated
    simpa [Style.enclose] using hmeans

end

/-! ## Values -/

mutual

/-- One case for each kind of value. -/
theorem means_write {style : Style} (hstyle : style.IsSpaced) :
    (j : Json) → (depth : Nat) → Means .value (write style depth j) j.datum
  | null, _ => .null
  | boolean b, _ => .boolean b
  | integer n, _ => means_natural n
  | float x, _ => means_float x
  | text s, _ => means_quote s
  | list items, depth => means_enclose hstyle depth (items_mean hstyle items (depth + 1))
  | object members, depth => means_enclose hstyle depth (members_mean hstyle members (depth + 1))

theorem items_mean {style : Style} (hstyle : style.IsSpaced) :
    (items : List Json) → (depth : Nat) →
      List.Forall₂ (ItemMeans .list) (writeItems style depth items) (itemData items)
  | [], _ => .nil
  | item :: items, depth =>
    .cons (.item .list (means_write hstyle item depth)) (items_mean hstyle items depth)

theorem members_mean {style : Style} (hstyle : style.IsSpaced) :
    (members : List (String × Json)) → (depth : Nat) →
      List.Forall₂ (ItemMeans .object) (writeMembers style depth members) (memberData members)
  | [], _ => .nil
  | (key, value) :: members, depth =>
    .cons (.item (leads_key hstyle key) (means_write hstyle value depth))
      (members_mean hstyle members depth)

end

/-- The text of a value is well-formed and is decoded to the value. -/
theorem decode?_write {style : Style} (hstyle : style.IsSpaced) (j : Json) :
    WellFormed .value (write style 0 j) ∧
      decode? (String.ofList (write style 0 j)) = some j.datum := by
  have hmeans := means_write hstyle j 0
  have hdecode := decode?_of_means hmeans isGap_nil isGap_nil
  rw [List.nil_append, List.append_nil] at hdecode
  exact ⟨hmeans.wellFormed, hdecode⟩

end Lox.Json
