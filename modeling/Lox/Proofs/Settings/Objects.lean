import Lox.Proofs.Settings.Fields
import Lox.Settings.Environment

/-!
Settings read from an object of any form. Member after member, the draft takes the fields that it
knows and does not have yet (`Draft.Takes`), so what is read depends on the values of each field
alone: not on the order of the members, on the gaps between them or on members of other names
(`ofFile_object`).
-/

namespace Lox.Settings

open Json Json.Reader

/-! ## Names -/

theorem ofName?_name (f : Field) : Field.ofName? f.name = some f := by
  cases f <;> rfl

theorem ofName?_eq_some_iff {key : String} {f : Field} :
    Field.ofName? key = some f ↔ key = f.name := by
  constructor
  · intro h
    rw [Field.ofName?] at h
    have hname := List.find?_some h
    exact (beq_iff_eq.mp hname).symm
  · rintro rfl
    exact ofName?_name f

/-- The values that the members have for a field. -/
def Field.values (f : Field) (members : List Member) : List (List Char) :=
  (members.filter fun m => m.key = f.name).map Member.value

theorem values_cons (f : Field) (m : Member) (members : List Member) :
    f.values (m :: members) =
      if Field.ofName? m.key = some f then m.value :: f.values members else f.values members := by
  simp only [ofName?_eq_some_iff]
  by_cases h : m.key = f.name
  · simp [Field.values, h]
  · simp [Field.values, h]

/-! ## Reading the members -/

namespace Draft

/-- A member of a field that the draft lacks is taken if its value spells the field; a member of
another name changes nothing. -/
def TakesMember (d : Draft) (m : Member) (d' : Draft) : Prop :=
  match Field.ofName? m.key with
  | none => d' = d
  | some f => d.has f = false ∧ ∃ s : Settings, Spells m.value (s.value f) ∧ d' = d.take s f

/-- Members are taken one after another. -/
def Takes : Draft → List Member → Draft → Prop
  | d, [], d' => d' = d
  | d, m :: members, d' => ∃ d₁, d.TakesMember m d₁ ∧ Takes d₁ members d'

end Draft

theorem exists_failDuplicate {α : Type} (f : Field) (text : List Char) :
    ∃ flaw, (failDuplicate f : Reader α) text = .error flaw := by
  have hpeek : ∃ c? text', peekAfterBlanks text = .ok (c?, text') := ⟨_, _, rfl⟩
  obtain ⟨c?, text', hpeek⟩ := hpeek
  rw [failDuplicate, bind_of_ok hpeek]
  by_cases hc : c? = some '\x7d'
  · simp only [hc, if_true]
    exact ⟨_, rfl⟩
  · simp only [hc, if_false]
    exact ⟨_, rfl⟩

theorem outcome_readMember {m : Member} {gap gap' rest : List Char} (hgap : IsGap gap)
    (hgap' : IsGap gap') (hvalue : WellFormed .value m.value) (hrest : EndsNumber rest)
    (d : Draft) :
    Outcome (d.TakesMember m) rest
      (readMember d m.key (gap ++ ':' :: (gap' ++ (m.value ++ rest)))) := by
  have hcolon := colon_gap hgap (gap' ++ (m.value ++ rest))
  cases hname : Field.ofName? m.key with
  | none =>
    have htakes (d' : Draft) : d' = d ↔ d.TakesMember m d' := by
      simp only [Draft.TakesMember, hname]
    simp only [readMember, hname]
    rw [bind_of_ok hcolon, bind_of_ok (skipValue_append hgap' hvalue hrest)]
    exact (Outcome.pure d rest).congr htakes
  | some f =>
    simp only [readMember, hname]
    by_cases hd : d.has f = true
    · have htakes (d' : Draft) : ¬d.TakesMember m d' := by simp [Draft.TakesMember, hname, hd]
      obtain ⟨flaw, hflaw⟩ := exists_failDuplicate (α := Draft) f
        (gap ++ ':' :: (gap' ++ (m.value ++ rest)))
      simp only [hd, if_true]
      rw [hflaw]
      exact .error htakes
    · have htakes (d' : Draft) :
          (∃ s : Settings, Spells m.value (s.value f) ∧ d' = d.take s f) ↔ d.TakesMember m d' := by
        simp [Draft.TakesMember, hname, hd]
      simp only [hd, Bool.false_eq_true, if_false]
      rw [bind_of_ok hcolon]
      exact (outcome_readField hvalue hgap' hrest d f).congr htakes

/-- What stands before the key of a member: gaps, and a comma if it is not the first. -/
inductive Opening : Bool → List Char → Prop
  | first {gap : List Char} (hgap : IsGap gap) : Opening true gap
  | comma {gap gap' : List Char} (hgap : IsGap gap) (hgap' : IsGap gap') :
    Opening false (gap ++ ',' :: gap')

theorem nextKey_append {isFirst : Bool} {opening text : List Char} {key : String}
    (hopening : Opening isFirst opening) (hkey : Denotes text key) (rest : List Char) :
    nextKey isFirst (opening ++ '"' :: (text ++ '"' :: rest)) = .ok (some key, rest) := by
  have hstring : (skip >>= fun _ => string >>= fun key => pure (some key))
      ('"' :: (text ++ '"' :: rest)) = .ok (some key, rest) := by
    rw [bind_of_ok (skip_cons _ _), bind_of_ok (string_of_denotes hkey rest)]
    rfl
  cases hopening with
  | first hgap =>
    rw [nextKey, bind_of_ok (peekAfterBlanks_gap hgap (by decide) _)]
    exact hstring
  | comma hgap hgap' =>
    rw [List.append_assoc, List.cons_append, nextKey,
      bind_of_ok (peekAfterBlanks_gap hgap (by decide) _)]
    show (skip >>= fun _ => peekAfterBlanks >>= _) _ = _
    rw [bind_of_ok (skip_cons _ _), bind_of_ok (peekAfterBlanks_gap hgap' (by decide) _)]
    exact hstring

theorem nextKey_end {gap : List Char} (hgap : IsGap gap) (isFirst : Bool) (rest : List Char) :
    nextKey isFirst (gap ++ '\x7d' :: rest) = .ok (none, rest) := by
  rw [nextKey, bind_of_ok (peekAfterBlanks_gap hgap (by decide) _)]
  rfl

/-- One member, and then the others. -/
theorem outcome_readMembers_succ {isFirst : Bool} {opening lead text gap rest rest' : List Char}
    {m : Member} {others : Draft → Draft → Prop} {steps : Nat} (hopening : Opening isFirst opening)
    (hlead : KeyText lead text) (hkey : Denotes text m.key) (hgap : IsGap gap)
    (hvalue : WellFormed .value m.value) (hrest : EndsNumber rest)
    (hothers : ∀ d, Outcome (others d) rest' (readMembers steps false d rest)) (d : Draft) :
    Outcome (fun d' => ∃ d₁, d.TakesMember m d₁ ∧ others d₁ d') rest'
      (readMembers (steps + 1) isFirst d (opening ++ (lead ++ (gap ++ (m.value ++ rest))))) := by
  cases hlead with
  | @key _ gap' hgap' =>
    simp only [List.cons_append, List.append_assoc, List.nil_append]
    rw [readMembers, bind_of_ok (nextKey_append hopening hkey _)]
    exact (outcome_readMember hgap' hgap hvalue hrest d).bind fun d₁ _ => hothers d₁

theorem outcome_readMembers {text : List Char} {members : List Member}
    (htext : MembersText text members) {isFirst : Bool} {opening : List Char}
    (hopening : Opening isFirst opening) {steps : Nat} (hsteps : members.length < steps)
    (d : Draft) (rest : List Char) :
    Outcome (d.Takes members) rest (readMembers steps isFirst d (opening ++ (text ++ rest))) := by
  induction htext generalizing isFirst opening steps d with
  | last hlead hkey hgap hvalue hgap' =>
    obtain ⟨steps, rfl⟩ : ∃ k, steps = k + 2 := ⟨steps - 2, by simp at hsteps; omega⟩
    have hends : EndsNumber ('\x7d' :: rest) := endsNumber_closing .object rest
    simp only [List.append_assoc, List.singleton_append]
    refine outcome_readMembers_succ hopening hlead hkey hgap hvalue (hgap'.endsNumber hends)
      (fun d₁ => ?_) d
    rw [readMembers, bind_of_ok (nextKey_end hgap' false rest)]
    exact .pure d₁ rest
  | more hlead hkey hgap hvalue hgap' hgap'' hmore ih =>
    rw [List.length_cons] at hsteps
    obtain ⟨steps, rfl⟩ : ∃ k, steps = k + 1 := ⟨steps - 1, by omega⟩
    simp only [List.append_assoc, List.cons_append]
    refine outcome_readMembers_succ hopening hlead hkey hgap hvalue
      (hgap'.endsNumber (endsNumber_comma _)) (fun d₁ => ?_) d
    have hread := ih (.comma hgap' hgap'') (Nat.lt_of_succ_lt_succ hsteps) d₁
    rwa [List.append_assoc, List.cons_append] at hread

theorem length_le_of_membersText {text : List Char} {members : List Member}
    (h : MembersText text members) : members.length ≤ text.length := by
  induction h with
  | last hlead =>
    simp only [List.length_append, List.length_cons, List.length_nil]
    omega
  | more hlead hkey hgap hvalue hgap' hgap'' hrest ih =>
    simp only [List.length_append, List.length_cons]
    omega

section
variable {gap : List Char} (hgap : IsGap gap)
include hgap

theorem readDraft_opening (inner : List Char) :
    readDraft (gap ++ '\x7b' :: inner) = readMembers (inner.length + 1) true .empty inner := by
  rw [readDraft, bind_of_ok (peekAfterBlanks_gap hgap (by decide) _)]
  rfl

theorem finish_gap : finish gap = .ok ((), []) := by
  rw [finish, bind_of_ok (peekAfterBlanks_end hgap)]
  rfl

end

/-- The whole text of an object is read, the gaps around it included. -/
theorem outcome_object {text : List Char} {members : List Member} (h : ObjectText text members) :
    Outcome (Draft.empty.Takes members) []
      ((do let d ← readDraft; finish; return d : Reader Draft) text) := by
  cases h with
  | @empty gap gap' gap'' hgap hgap' hgap'' =>
    have hread : readDraft (gap ++ '\x7b' :: (gap' ++ '\x7d' :: gap'')) = .ok (.empty, gap'') := by
      rw [readDraft_opening hgap, readMembers, bind_of_ok (nextKey_end hgap' true gap'')]
      rfl
    rw [bind_of_ok hread, bind_of_ok (finish_gap hgap'')]
    exact Outcome.pure Draft.empty []
  | @filled gap gap' gap'' text members hgap hgap' htext hgap'' =>
    have hsteps : members.length < (gap' ++ (text ++ gap'')).length + 1 := by
      have hlength := length_le_of_membersText htext
      simp only [List.length_append]
      omega
    have hread := outcome_readMembers htext (.first hgap') hsteps .empty gap''
    rw [← readDraft_opening hgap] at hread
    have hend (d : Draft) :
        Outcome (fun d' => d' = d) [] ((finish >>= fun _ => (pure d : Reader Draft)) gap'') := by
      rw [bind_of_ok (finish_gap hgap'')]
      exact .pure d []
    exact (hread.bind fun d _ => hend d).congr fun d => by simp

/-! ## What the members give -/

/-- The settings have for the field what the members give, or the standard value if they give
nothing; two values for one field are given by no settings. -/
def Follows (s : Settings) (members : List Member) (f : Field) : Prop :=
  match f.values members with
  | [] => s.value f = standard.value f
  | [v] => Spells v (s.value f)
  | _ => False

theorem follows_iff {s : Settings} {members : List Member} {f : Field} :
    s.Follows members f ↔ (f.values members = [] ∧ s.value f = standard.value f) ∨
      ∃ v, f.values members = [v] ∧ Spells v (s.value f) := by
  unfold Follows
  match f.values members with
  | [] => simp
  | [v] => simp
  | v :: w :: more => simp

/-- What the members give is in the draft afterwards. -/
theorem Draft.Takes.values {members : List Member} {d d' : Draft} (h : d.Takes members d')
    (f : Field) : (f.values members = [] ∧ d'.value? f = d.value? f) ∨
      d.has f = false ∧ ∃ v s, f.values members = [v] ∧ Spells v (Settings.value s f) ∧
        d'.value? f = some (s.value f) := by
  induction members generalizing d with
  | nil =>
    cases h
    exact .inl ⟨rfl, rfl⟩
  | cons m members ih =>
    obtain ⟨d₁, hmember, h⟩ := h
    have hrest := ih h
    unfold TakesMember at hmember
    rw [values_cons]
    cases hname : Field.ofName? m.key with
    | none =>
      simp only [hname] at hmember
      rw [← hmember, if_neg nofun]
      exact hrest
    | some g =>
      simp only [hname] at hmember
      obtain ⟨hd, s, hspells, rfl⟩ := hmember
      by_cases heq : g = f
      · subst heq
        rw [if_pos rfl]
        rcases hrest with ⟨hvalues, hvalue⟩ | ⟨hhas, -⟩
        · exact .inr ⟨hd, m.value, s, by rw [hvalues], hspells, by rw [hvalue, value?_take_self]⟩
        · rw [has_take_self] at hhas
          cases hhas
      · rw [value?_take_of_ne s d (Ne.symm heq), has_take_of_ne s d (Ne.symm heq)] at hrest
        rw [if_neg fun h => heq (Option.some.inj h)]
        exact hrest

/-- Members that give what settings have are taken, and the draft has it afterwards. -/
theorem exists_takes (s : Settings) {members : List Member} {d : Draft}
    (h : ∀ f, f.values members = [] ∨
      d.has f = false ∧ ∃ v, f.values members = [v] ∧ Spells v (s.value f)) :
    ∃ d', d.Takes members d' ∧
      ∀ f, d'.value? f = if f.values members = [] then d.value? f else some (s.value f) := by
  induction members generalizing d with
  | nil => exact ⟨d, rfl, fun f => rfl⟩
  | cons m members ih =>
    simp only [values_cons] at h ⊢
    cases hname : Field.ofName? m.key with
    | none =>
      have hmember : d.TakesMember m d := by simp only [Draft.TakesMember, hname]
      simp only [hname, reduceCtorEq, if_false] at h ⊢
      obtain ⟨d', htakes, hvalue⟩ := ih h
      exact ⟨d', ⟨d, hmember, htakes⟩, hvalue⟩
    | some g =>
      simp only [hname, Option.some.injEq] at h ⊢
      obtain ⟨hd, hspells, hvalues⟩ :
          d.has g = false ∧ Spells m.value (s.value g) ∧ g.values members = [] := by
        have hg := h g
        simp only [if_true, reduceCtorEq, false_or, List.cons.injEq] at hg
        obtain ⟨hd, v, ⟨rfl, hvalues⟩, hspells⟩ := hg
        exact ⟨hd, hspells, hvalues⟩
      have hmember : d.TakesMember m (d.take s g) := by
        simp only [Draft.TakesMember, hname]
        exact ⟨hd, s, hspells, rfl⟩
      obtain ⟨d', htakes, hvalue⟩ := @ih (d.take s g) fun f => by
        by_cases heq : g = f
        · exact .inl (heq ▸ hvalues)
        · rw [Draft.has_take_of_ne s d (Ne.symm heq)]
          simpa only [heq, if_false] using h f
      refine ⟨d', ⟨d.take s g, hmember, htakes⟩, fun f => ?_⟩
      rw [hvalue f]
      by_cases heq : g = f
      · subst heq
        simp [hvalues, Draft.value?_take_self]
      · simp only [heq, if_false, Draft.value?_take_of_ne s d (Ne.symm heq)]

/-- The settings of an object follow its members, and settings that do are read. -/
theorem takes_complete_iff (members : List Member) (s : Settings) :
    (∃ d, Draft.empty.Takes members d ∧ d.complete = s) ↔ ∀ f, s.Follows members f := by
  have hempty (f : Field) : Draft.empty.value? f = none ∧ Draft.empty.has f = false := by
    cases f <;> exact ⟨rfl, rfl⟩
  constructor
  · rintro ⟨d, htakes, rfl⟩ f
    rw [follows_iff, Draft.complete_value]
    rcases htakes.values f with ⟨hvalues, hvalue⟩ | ⟨-, v, s, hvalues, hspells, hvalue⟩
    · rw [hvalue, (hempty f).1]
      exact .inl ⟨hvalues, rfl⟩
    · rw [hvalue]
      exact .inr ⟨v, hvalues, hspells⟩
  · intro h
    obtain ⟨d, htakes, hvalue⟩ := exists_takes s (d := .empty) fun f =>
      (follows_iff.mp (h f)).imp And.left fun hf => ⟨(hempty f).2, hf⟩
    refine ⟨d, htakes, ext_value fun f => ?_⟩
    rw [Draft.complete_value, hvalue f]
    rcases follows_iff.mp (h f) with ⟨hvalues, hstandard⟩ | ⟨v, hvalues, -⟩
    · rw [if_pos hvalues, (hempty f).1, hstandard]
      rfl
    · rw [if_neg (by simp [hvalues])]
      rfl

theorem ofText_eq_ok_iff {contents : String} {members : List Member}
    (h : ObjectText contents.toList members) (s : Settings) :
    ofText contents = .ok s ↔ ∀ f, s.Follows members f := by
  have hread := outcome_object h
  rw [← takes_complete_iff, ofText]
  generalize (do let d ← readDraft; finish; return d : Reader Draft) contents.toList = result
    at hread ⊢
  cases hread with
  | @ok d hd =>
    show (Except.ok d.complete : Except Flaw Settings) = .ok s ↔ _
    simp only [hd, exists_eq_left, Except.ok.injEq]
  | error hd => simp [hd, bind, Except.bind]

theorem ofFile_eq_ok_iff {contents : String} {members : List Member}
    (h : ObjectText contents.toList members) (s : Settings) :
    ofFile contents = .ok s ↔ ∀ f, s.Follows members f := by
  rw [← ofText_eq_ok_iff h, ofFile]
  cases ofText contents with
  | ok s' => simp
  | error flaw => simp

/-- The settings that have each field from settings of its own. -/
def ofFields (s : Field → Settings) : Settings :=
  ⟨(s .maxDepth).maxDepth, (s .printTokens).printTokens, (s .printAst).printAst,
    (s .prompt).prompt, (s .debug).debug⟩

theorem ofFields_value (s : Field → Settings) (f : Field) :
    (ofFields s).value f = (s f).value f := by
  cases f <;> rfl

/-- Settings that follow the members exist exactly if no field has two values and all values are of
the types of their fields. -/
theorem exists_follows_iff (members : List Member) :
    (∃ s : Settings, ∀ f, s.Follows members f) ↔ ∀ f : Field, (f.values members).length ≤ 1 ∧
      ∀ v ∈ f.values members, ∃ s : Settings, Spells v (s.value f) := by
  have hfield (f : Field) : (∃ s : Settings, s.Follows members f) ↔
      (f.values members).length ≤ 1 ∧
        ∀ v ∈ f.values members, ∃ s : Settings, Spells v (s.value f) := by
    simp only [follows_iff]
    match f.values members with
    | [] => exact iff_of_true ⟨standard, .inl ⟨rfl, rfl⟩⟩ (by simp)
    | [v] => simp
    | v :: w :: more => simp
  simp only [← hfield]
  constructor
  · exact fun ⟨s, hs⟩ f => ⟨s, hs f⟩
  · intro h
    obtain ⟨s, hs⟩ := Classical.axiomOfChoice h
    refine ⟨ofFields s, fun f => ?_⟩
    rw [follows_iff, ofFields_value]
    exact follows_iff.mp (hs f)

/-- Whether settings follow the members depends on the members of the fields alone, in any
order. -/
theorem follows_iff_of_perm {members members' : List Member}
    (h : (members.filter fun m => (Field.ofName? m.key).isSome).Perm
      (members'.filter fun m => (Field.ofName? m.key).isSome)) (s : Settings) (f : Field) :
    s.Follows members f ↔ s.Follows members' f := by
  have hvalues (members : List Member) :
      f.values (members.filter fun m => (Field.ofName? m.key).isSome) = f.values members := by
    rw [Field.values, List.filter_filter]
    congr 2
    funext m
    by_cases hm : m.key = f.name
    · simp [ofName?_eq_some_iff.mpr hm]
    · simp [hm]
  have hperm : (f.values members).Perm (f.values members') := by
    have hmap := (h.filter fun m => m.key = f.name).map Member.value
    exact hvalues members ▸ hvalues members' ▸ hmap
  have hnil : f.values members = [] ↔ f.values members' = [] :=
    ⟨fun h => (h ▸ hperm).nil_eq.symm, fun h => (h ▸ hperm.symm).nil_eq.symm⟩
  have hsingle (v : List Char) : f.values members = [v] ↔ f.values members' = [v] :=
    ⟨fun h => (h ▸ hperm).singleton_eq.symm, fun h => (h ▸ hperm.symm).singleton_eq.symm⟩
  simp only [follows_iff, hnil, hsingle]

/-- An object is read by its fields. -/
theorem ofFile_object {contents : String} {members : List Member}
    (h : ObjectText contents.toList members) :
    (∀ s, ofFile contents = .ok s ↔ ∀ f, s.Follows members f) ∧
      ((∃ s, ofFile contents = .ok s) ↔ ∀ f : Field, (f.values members).length ≤ 1 ∧
        ∀ v ∈ f.values members, ∃ s : Settings, Spells v (s.value f)) ∧
      ((∃ s, ofFile contents = .ok s) ∨
        ∃ flaw, ofFile contents = .error (.file contents flaw)) ∧
      ∀ {contents' : String} {members' : List Member}, ObjectText contents'.toList members' →
        (members.filter fun m => (Field.ofName? m.key).isSome).Perm
          (members'.filter fun m => (Field.ofName? m.key).isSome) →
        ∀ s, ofFile contents = .ok s ↔ ofFile contents' = .ok s := by
  refine ⟨ofFile_eq_ok_iff h, ?_, ?_, fun h' hperm s => ?_⟩
  · simp only [ofFile_eq_ok_iff h, exists_follows_iff]
  · cases hread : ofText contents with
    | ok s => exact .inl ⟨s, by rw [ofFile, hread]⟩
    | error flaw => exact .inr ⟨flaw, by rw [ofFile, hread]⟩
  · rw [ofFile_eq_ok_iff h, ofFile_eq_ok_iff h']
    exact forall_congr' (follows_iff_of_perm hperm s)

/-- Behind an unknown key even half of a pair and a number out of range are passed over, and an
escape in a key does not hide the field. -/
theorem ofFile_object_escaped :
    ObjectText "\x7b\"x\":[\x7b\"\\ud800\":1e999\x7d],\"\\u0064ebug\":true\x7d".toList
        [⟨"x", "[\x7b\"\\ud800\":1e999\x7d]".toList⟩, ⟨"debug", "true".toList⟩] ∧
      ofFile "\x7b\"x\":[\x7b\"\\ud800\":1e999\x7d],\"\\u0064ebug\":true\x7d" =
        .ok { standard with debug := true } := by
  have hhalf : StringText "\\ud800".toList [.unit 0xD800] :=
    .unit (@Quad.digits ('d', 13) ('8', 8) ('0', 0) ('0', 0) (by decide) (by decide) (by decide)
      (by decide)) .nil
  have hnumber : Numeral "1e999".toList :=
    @Numeral.parts ['1'] [] ['e', '9', '9', '9'] (.digits (by decide) (by simp)) .none
      (@Exponent.some 'e' [] ['9', '9', '9'] (.inl rfl) (.inl rfl) (by decide) (by simp))
  have hinner := WellFormed.filled isGap_nil
    (.last (.object (.key isGap_nil) hhalf isGap_nil) (.number hnumber) isGap_nil)
  have hx : WellFormed .value "[\x7b\"\\ud800\":1e999\x7d]".toList :=
    WellFormed.filled isGap_nil (.last .list hinner isGap_nil)
  have hkey : Denotes "\\u0064ebug".toList "debug" := by
    obtain ⟨pieces, htext, hdecode⟩ := denotes_escape "ebug"
    refine ⟨.unit 0x64 :: pieces, .unit (@Quad.digits ('0', 0) ('0', 0) ('6', 6) ('4', 4)
      (by decide) (by decide) (by decide) (by decide)) htext, ?_⟩
    rw [Piece.decode.eq_def]
    simp only
    rw [if_pos (by decide), hdecode]
    rfl
  have hdebug : MembersText "\"\\u0064ebug\":true\x7d".toList [⟨"debug", "true".toList⟩] :=
    @MembersText.last _ _ [] [] ⟨"debug", "true".toList⟩ (.key isGap_nil) hkey isGap_nil
      (.word (by decide)) isGap_nil
  have hmembers := @MembersText.more _ _ [] [] [] _
    ⟨"x", "[\x7b\"\\ud800\":1e999\x7d]".toList⟩ _ (.key isGap_nil) (denotes_escape "x") isGap_nil hx
    isGap_nil isGap_nil hdebug
  have hobject : ObjectText
      "\x7b\"x\":[\x7b\"\\ud800\":1e999\x7d],\"\\u0064ebug\":true\x7d".toList
      [⟨"x", "[\x7b\"\\ud800\":1e999\x7d]".toList⟩, ⟨"debug", "true".toList⟩] :=
    @ObjectText.filled [] [] [] _ _ isGap_nil isGap_nil hmembers isGap_nil
  refine ⟨hobject, ((ofFile_object hobject).1 _).mpr fun f => ?_⟩
  cases f <;> rfl

end Lox.Settings
