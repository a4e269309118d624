import Lox.Expr.PrefixForm
import Lox.Proofs.Expr.Spelling

/-!
What tokens carry. A tree of the grammar whose tokens carry what their kinds call for has a prefix
form (`Expr.exists_prefixForm`); nothing but the payload of a leaf could stand in the way.
-/

namespace Lox

/-- Numbers and strings carry what they stand for, and no other token carries anything. -/
def Token.PayloadFits (t : Token) : Prop :=
  match t.kind with
  | .number => ∃ x, t.literal = some (.number x)
  | .string => ∃ s, t.literal = some (.string s)
  | _ => t.literal = none

theorem Token.payloadFits_endMarker (line : Nat) : (Token.endMarker line).PayloadFits := rfl

namespace Expr

/-- All leaves carry what their kinds call for. -/
def PayloadsFit : Expr → Prop
  | literal t => t.PayloadFits
  | unary _ operand => operand.PayloadsFit
  | binary left _ right => left.PayloadsFit ∧ right.PayloadsFit
  | grouping inner => inner.PayloadsFit

theorem Spells.payloadsFit {e : Expr} {span : List Token} (h : e.Spells span)
    (hspan : ∀ t ∈ span, t.PayloadFits) : e.PayloadsFit := by
  induction h with
  | literal t => exact hspan t (List.mem_singleton_self t)
  | unary op h ih => exact ih fun t ht => hspan t (List.mem_cons_of_mem _ ht)
  | binary op hl hr ihl ihr =>
    refine ⟨ihl fun t ht => hspan t (List.mem_append_left _ ht), ihr fun t ht => ?_⟩
    exact hspan t (List.mem_append_right _ (List.mem_cons_of_mem _ ht))
  | grouping ho hc h ih =>
    exact ih fun t ht => hspan t (List.mem_cons_of_mem _ (List.mem_append_left _ ht))

/-- The tokens that stand for a value. -/
inductive Leaf : Token → Prop
  | number (line : Nat) (lexeme : String) (x : Float) :
    Leaf ⟨line, .number, lexeme, some (.number x)⟩
  | string (line : Nat) (lexeme : String) (s : String) :
    Leaf ⟨line, .string, lexeme, some (.string s)⟩
  | trueWord (line : Nat) (lexeme : String) : Leaf ⟨line, .keyword .trueWord, lexeme, none⟩
  | falseWord (line : Nat) (lexeme : String) : Leaf ⟨line, .keyword .falseWord, lexeme, none⟩
  | nilWord (line : Nat) (lexeme : String) : Leaf ⟨line, .keyword .nilWord, lexeme, none⟩

theorem Leaf.of_payloadFits {t : Token} (hs : (literal t).IsStratified) (hp : t.PayloadFits) :
    Leaf t := by
  obtain ⟨line, kind, lexeme, payload⟩ := t
  simp only [IsStratified, List.mem_cons, List.not_mem_nil, or_false] at hs
  rcases hs with rfl | rfl | rfl | rfl | rfl
  · obtain ⟨x, rfl⟩ := hp
    exact .number line lexeme x
  · obtain ⟨s, rfl⟩ := hp
    exact .string line lexeme s
  all_goals obtain rfl : payload = none := hp
  · exact .trueWord line lexeme
  · exact .falseWord line lexeme
  · exact .nilWord line lexeme

theorem Leaf.exists_text {t : Token} (h : Leaf t) : ∃ text, t.leafText? = some text := by
  cases h <;> exact ⟨_, rfl⟩

theorem exists_prefixForm {e : Expr} (hs : e.IsStratified) (hp : e.PayloadsFit) :
    ∃ text, e.prefixForm = .ok text := by
  induction e with
  | literal t =>
    obtain ⟨text, ht⟩ := (Leaf.of_payloadFits hs hp).exists_text
    exact ⟨text, by rw [prefixForm, ht]⟩
  | unary op operand ih =>
    obtain ⟨text, ht⟩ := ih hs.2.2 hp
    exact ⟨_, by rw [prefixForm, ht]; rfl⟩
  | binary left op right ihl ihr =>
    obtain ⟨n, -, -, -, hsl, hsr⟩ := hs
    obtain ⟨l, hl⟩ := ihl hsl hp.1
    obtain ⟨r, hr⟩ := ihr hsr hp.2
    exact ⟨_, by rw [prefixForm, hl, hr]; rfl⟩
  | grouping inner ih =>
    obtain ⟨text, ht⟩ := ih hs hp
    exact ⟨_, by rw [prefixForm, ht]; rfl⟩

end Expr

end Lox
