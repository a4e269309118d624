import Lox.Proofs.Decimal.Characters
import Lox.Proofs.Expr.Payload
import Lox.Proofs.Scanning.Munch

/-!
Reading a tree off its prefix form. The form is made of words, and each word tells what stands
there: an operator, or a leaf. A group has its parentheses glued to what is inside, and a parenthesis
is in no word. So the form of a tree is cut off from whatever follows it in one way
(`Form.resembles`), and trees of one form differ in nothing that is shown. A string may hold
anything and a minus sign may stand before one operand or between two, so both are left out.
-/

namespace Lox.Expr

/-! ## Trees without strings and minus signs before operands -/

/-- The leaves are numbers, booleans and nil with what belongs to them, the only operator before an
operand is the negation, and all operators are spelled as a source spells them. -/
def IsPlain : Expr → Prop
  | literal t => t.PayloadFits ∧
    t.kind ∈ [.number, .keyword .trueWord, .keyword .falseWord, .keyword .nilWord]
  | unary op operand => op.kind = .bang ∧ op.lexeme = "!" ∧ operand.IsPlain
  | binary left op right => op.kind.tightness?.isSome ∧
    (op.lexeme.toList, op.kind) ∈ Segment.marks ∧ left.IsPlain ∧ right.IsPlain
  | grouping inner => inner.IsPlain

/-- The trees are of one shape, with operators of the same kinds in the same places, and leaves that
are the same keyword or show the same number. -/
inductive Resembles : Expr → Expr → Prop
  | literal {t t' : Token} (hkind : t.kind = t'.kind) (htext : t.leafText? = t'.leafText?) :
    Resembles (literal t) (literal t')
  | unary {op op' : Token} {operand operand' : Expr} (hkind : op.kind = op'.kind)
    (h : Resembles operand operand') : Resembles (unary op operand) (unary op' operand')
  | binary {op op' : Token} {left left' right right' : Expr} (hkind : op.kind = op'.kind)
    (hl : Resembles left left') (hr : Resembles right right') :
    Resembles (binary left op right) (binary left' op' right')
  | grouping {inner inner' : Expr} (h : Resembles inner inner') :
    Resembles (grouping inner) (grouping inner')

/-! ## Words -/

/-- A text that neither a space nor a parenthesis cuts. -/
def IsWord (text : List Char) : Prop :=
  text ≠ [] ∧ ∀ c ∈ text, c ∉ [' ', '(', ')']

instance (text : List Char) : Decidable (IsWord text) :=
  @instDecidableAnd _ _ _ (List.decidableBAll _ text)

/-- What may stand behind a form: nothing, the space before the next one, or the end of a group. -/
def EndsForm (rest : List Char) : Prop :=
  ∀ c ∈ rest.head?, c ∈ [' ', ')']

theorem endsForm_cons {c : Char} (h : c ∈ [' ', ')']) (rest : List Char) : EndsForm (c :: rest) := by
  intro d hd
  cases hd
  exact h

theorem IsWord.append_inj {word word' rest rest' : List Char} (hw : IsWord word)
    (hw' : IsWord word') (hr : EndsForm rest) (hr' : EndsForm rest')
    (h : word ++ rest = word' ++ rest') : word = word' ∧ rest = rest' := by
  -- a word is the longest beginning without a space or a parenthesis
  have htake {word rest : List Char} (hw : IsWord word) (hr : EndsForm rest) :
      (word ++ rest).takeWhile (· ∉ [' ', '(', ')']) = word := by
    have hrest : rest.takeWhile (· ∉ [' ', '(', ')']) = [] := by
      cases rest with
      | nil => rfl
      | cons c rest =>
        have hc := hr c rfl
        exact List.takeWhile_cons_of_neg (by
          simp only [List.mem_cons, List.not_mem_nil, or_false] at hc
          rcases hc with rfl | rfl <;> decide)
    rw [List.takeWhile_append_of_pos (fun c hc => decide_eq_true (hw.2 c hc)), hrest,
      List.append_nil]
  have hword : word = word' := by
    rw [← htake hw hr, h, htake hw' hr']
  subst hword
  exact ⟨rfl, List.append_cancel_left h⟩

/-- A word does not begin like a group. -/
theorem IsWord.append_ne_opening {word : List Char} (hw : IsWord word) (rest more : List Char) :
    word ++ rest ≠ '(' :: more := by
  obtain ⟨c, word', rfl⟩ := List.exists_cons_of_ne_nil hw.1
  intro h
  have hc := hw.2 c List.mem_cons_self
  rw [(List.cons.inj h).1] at hc
  exact hc (by decide)

/-! ## The words of a form -/

/-- The words of leaves have a letter or a digit in them, which no operator has. -/
structure IsLeafText (text : List Char) : Prop where
  isWord : IsWord text
  alphanum : ∃ c ∈ text, c.isAlphanum

theorem isLeafText_number (x : Float) : IsLeafText (Value.decimals.text x).toList := by
  obtain ⟨c, hc, halphanum⟩ := Value.decimals.exists_alphanum_mem_text x
  refine ⟨⟨List.ne_nil_of_mem hc, ?_⟩, c, hc, halphanum⟩
  refine Decimal.Layout.forall_mem_text (fun c hc hmem => ?_) (by simp [Decimal.Layout.commonMarks]) nofun nofun x
  simp only [List.mem_cons, List.not_mem_nil, or_false] at hmem
  rcases hmem with rfl | rfl | rfl <;> exact absurd hc (by decide)

/-- The keywords have letters that no number is written with. -/
theorem text_ne_keyword (x : Float) :
    Value.decimals.text x ∉ ["true", "false", "nil"] := by
  have hletters : ∀ c ∈ (Value.decimals.text x).toList, c ∉ ['t', 'l'] := by
    refine Decimal.Layout.forall_mem_text (fun c hc hmem => ?_) (by simp [Decimal.Layout.commonMarks]) nofun nofun x
    simp only [List.mem_cons, List.not_mem_nil, or_false] at hmem
    rcases hmem with rfl | rfl <;> exact absurd hc (by decide)
  intro hmem
  simp only [List.mem_cons, List.not_mem_nil, or_false] at hmem
  rcases hmem with h | h | h
  · exact hletters 't' (by rw [h]; decide) (by decide)
  · exact hletters 'l' (by rw [h]; decide) (by decide)
  · exact hletters 'l' (by rw [h]; decide) (by decide)

/-- What a plain leaf shows: a number, or its keyword. -/
inductive PlainLeaf : Token → String → Prop
  | number {t : Token} {x : Float} (hkind : t.kind = .number)
    (htext : t.leafText? = some (Value.decimals.text x)) : PlainLeaf t (Value.decimals.text x)
  | keyword {t : Token} {w : Keyword} (hkind : t.kind = .keyword w)
    (hw : w ∈ [.trueWord, .falseWord, .nilWord]) (htext : t.leafText? = some w.text) :
    PlainLeaf t w.text

theorem IsPlain.exists_leaf {t : Token} (h : (literal t).IsPlain) : ∃ text, PlainLeaf t text := by
  obtain ⟨hpayload, hkind⟩ := h
  have hs : (literal t).IsStratified := by
    simp only [List.mem_cons, List.not_mem_nil, or_false] at hkind
    rcases hkind with hk | hk | hk | hk <;> simp [IsStratified, hk]
  cases Leaf.of_payloadFits hs hpayload with
  | number line lexeme x => exact ⟨_, .number rfl rfl⟩
  | string line lexeme s => simp at hkind
  | trueWord | falseWord | nilWord => exact ⟨_, .keyword rfl (by decide) rfl⟩

theorem PlainLeaf.leafText?_eq {t : Token} {text : String} (h : PlainLeaf t text) :
    t.leafText? = some text := by
  cases h <;> assumption

theorem PlainLeaf.isLeafText {t : Token} {text : String} (h : PlainLeaf t text) :
    IsLeafText text.toList := by
  cases h with
  | number hkind htext => exact isLeafText_number _
  | keyword hkind hw htext =>
    simp only [List.mem_cons, List.not_mem_nil, or_false] at hw
    rcases hw with rfl | rfl | rfl
    · exact ⟨by decide, 't', by decide, by decide⟩
    · exact ⟨by decide, 'f', by decide, by decide⟩
    · exact ⟨by decide, 'n', by decide, by decide⟩

/-- The text of a leaf tells its kind. -/
theorem PlainLeaf.kind_eq {t t' : Token} {text : String} (h : PlainLeaf t text)
    (h' : PlainLeaf t' text) : t.kind = t'.kind := by
  have hkeyword {w : Keyword} (hw : w ∈ [.trueWord, .falseWord, .nilWord]) :
      w.text ∈ ["true", "false", "nil"] := by
    simp only [List.mem_cons, List.not_mem_nil, or_false] at hw
    rcases hw with rfl | rfl | rfl <;> decide
  generalize htext : text = shown at h'
  cases h with
  | @number x hkind =>
    cases h' with
    | number hkind' => rw [hkind, hkind']
    | keyword hkind' hw' => exact absurd (htext ▸ hkeyword hw') (text_ne_keyword x)
  | @keyword w hkind hw =>
    cases h' with
    | @number x hkind' => exact absurd (htext ▸ hkeyword hw) (text_ne_keyword x)
    | @keyword w' hkind' hw' =>
      have hinj : ∀ w ∈ [Keyword.trueWord, .falseWord, .nilWord],
          ∀ w' ∈ [Keyword.trueWord, .falseWord, .nilWord], w.text = w'.text → w = w' := by
        decide
      rw [hkind, hkind', hinj w hw w' hw' htext]

/-- The words of operators. -/
structure IsOperatorText (text : List Char) : Prop where
  isWord : IsWord text
  marks : ∀ c ∈ text, ¬ c.isAlphanum

theorem IsOperatorText.ne_leafText {text leaf : List Char} (h : IsOperatorText text)
    (hleaf : IsLeafText leaf) : text ≠ leaf := by
  rintro rfl
  obtain ⟨c, hc, halphanum⟩ := hleaf.alphanum
  exact h.marks c hc halphanum

theorem isOperatorText_bang : IsOperatorText ['!'] :=
  ⟨by decide, by simp⟩

theorem isOperatorText_binary {text : List Char} {kind : TokenKind}
    (hmark : (text, kind) ∈ Segment.marks) (hkind : kind.tightness?.isSome) :
    IsOperatorText text ∧ text ≠ ['!'] := by
  have hall : ∀ m ∈ Segment.marks, m.2.tightness?.isSome →
      (IsWord m.1 ∧ m.1.all fun c => !c.isAlphanum) ∧ m.1 ≠ ['!'] := by
    decide
  obtain ⟨⟨hword, hmarks⟩, hbang⟩ := hall _ hmark hkind
  exact ⟨⟨hword, by simpa using hmarks⟩, hbang⟩

/-- A mark is spelled in one way, and no other one is spelled like it. -/
theorem kind_eq_iff_of_mem_marks {text text' : List Char} {kind kind' : TokenKind}
    (h : (text, kind) ∈ Segment.marks) (h' : (text', kind') ∈ Segment.marks) :
    kind = kind' ↔ text = text' := by
  have hall : ∀ m ∈ Segment.marks, ∀ m' ∈ Segment.marks, m.2 = m'.2 ↔ m.1 = m'.1 := by decide
  exact hall _ h _ h'

/-! ## Forms -/

/-- A plain tree and the characters of its prefix form, told by the words. -/
inductive Form : Expr → List Char → Prop
  | literal {t : Token} {text : String} (h : PlainLeaf t text) : Form (literal t) text.toList
  | unary {op : Token} {operand : Expr} {text : List Char} (hkind : op.kind = .bang)
    (h : Form operand text) : Form (unary op operand) (['!'] ++ ' ' :: text)
  | binary {op : Token} {left right : Expr} {word text text' : List Char}
    (hkind : op.kind.tightness?.isSome) (hword : (word, op.kind) ∈ Segment.marks)
    (hl : Form left text) (hr : Form right text') :
    Form (binary left op right) (word ++ ' ' :: (text ++ ' ' :: text'))
  | grouping {inner : Expr} {text : List Char} (h : Form inner text) :
    Form (grouping inner) ('(' :: (text ++ [')']))

/-- Every plain tree has a prefix form. -/
theorem IsPlain.exists_form {e : Expr} (h : e.IsPlain) :
    ∃ text, e.prefixForm = .ok text ∧ Form e text.toList := by
  induction e with
  | literal t =>
    obtain ⟨text, hleaf⟩ := h.exists_leaf
    exact ⟨text, by rw [prefixForm, hleaf.leafText?_eq], .literal hleaf⟩
  | unary op operand ih =>
    obtain ⟨hkind, hlexeme, hoperand⟩ := h
    obtain ⟨text, htext, hform⟩ := ih hoperand
    refine ⟨op.lexeme ++ " " ++ text, by rw [prefixForm, htext]; rfl, ?_⟩
    simpa [hlexeme] using Form.unary hkind hform
  | binary left op right ihl ihr =>
    obtain ⟨hkind, hmark, hleft, hright⟩ := h
    obtain ⟨text, htext, hform⟩ := ihl hleft
    obtain ⟨text', htext', hform'⟩ := ihr hright
    refine ⟨op.lexeme ++ " " ++ text ++ " " ++ text', by rw [prefixForm, htext, htext']; rfl, ?_⟩
    simpa using Form.binary hkind hmark hform hform'
  | grouping inner ih =>
    obtain ⟨text, htext, hform⟩ := ih h
    refine ⟨"(" ++ text ++ ")", by rw [prefixForm, htext]; rfl, ?_⟩
    simpa using Form.grouping hform

/-- A leaf and an operator do not begin alike. -/
theorem IsLeafText.append_ne_operator {leaf word rest more : List Char} (hleaf : IsLeafText leaf)
    (hword : IsOperatorText word) (hr : EndsForm rest) : leaf ++ rest ≠ word ++ ' ' :: more := by
  intro h
  have hwords := hleaf.isWord.append_inj hword.isWord hr (endsForm_cons (by decide) more) h
  exact hword.ne_leafText hleaf hwords.1.symm

/-- Words of operators at the front are the same, and so is what follows the space behind them. -/
theorem IsOperatorText.append_inj {word word' rest rest' : List Char} (hw : IsOperatorText word)
    (hw' : IsOperatorText word') (h : word ++ ' ' :: rest = word' ++ ' ' :: rest') :
    word = word' ∧ rest = rest' := by
  have hspace (rest : List Char) : EndsForm (' ' :: rest) := endsForm_cons (by decide) rest
  obtain ⟨hword, hrest⟩ := hw.isWord.append_inj hw'.isWord (hspace rest) (hspace rest') h
  exact ⟨hword, (List.cons.inj hrest).2⟩

/-- A form is cut off from what follows it in one way. The induction is on the first form; what
begins differently is no form of the same kind of tree. -/
theorem Form.resembles {e e' : Expr} {text text' rest rest' : List Char} (h : Form e text)
    (h' : Form e' text') (hr : EndsForm rest) (hr' : EndsForm rest')
    (heq : text ++ rest = text' ++ rest') : e.Resembles e' ∧ rest = rest' := by
  induction h generalizing e' text' rest rest' with
  | literal hleaf =>
    have hword := hleaf.isLeafText
    cases h' with
    | literal hleaf' =>
      obtain ⟨htext, hrest⟩ := hword.isWord.append_inj hleaf'.isLeafText.isWord hr hr' heq
      obtain rfl := String.toList_inj.mp htext
      have hsame := hleaf.leafText?_eq.trans hleaf'.leafText?_eq.symm
      exact ⟨.literal (hleaf.kind_eq hleaf') hsame, hrest⟩
    | unary hkind' hform' =>
      rw [List.append_assoc] at heq
      exact absurd heq (hword.append_ne_operator isOperatorText_bang hr)
    | binary hkind' hmark' hl' hr' =>
      rw [List.append_assoc] at heq
      exact absurd heq (hword.append_ne_operator (isOperatorText_binary hmark' hkind').1 hr)
    | grouping hform' => exact absurd heq (hword.isWord.append_ne_opening _ _)
  | unary hkind hform ih =>
    rw [List.append_assoc] at heq
    cases h' with
    | literal hleaf' =>
      exact absurd heq.symm (hleaf'.isLeafText.append_ne_operator isOperatorText_bang hr')
    | unary hkind' hform' =>
      rw [List.append_assoc] at heq
      obtain ⟨-, hmore⟩ := isOperatorText_bang.append_inj isOperatorText_bang heq
      obtain ⟨hoperand, hrest⟩ := ih hform' hr hr' hmore
      exact ⟨.unary (hkind.trans hkind'.symm) hoperand, hrest⟩
    | binary hkind' hmark' hl' hr' =>
      rw [List.append_assoc] at heq
      obtain ⟨hword', hbang⟩ := isOperatorText_binary hmark' hkind'
      exact absurd (isOperatorText_bang.append_inj hword' heq).1.symm hbang
    | grouping hform' => exact absurd heq (isOperatorText_bang.isWord.append_ne_opening _ _)
  | binary hkind hmark hl hright ihl ihr =>
    obtain ⟨hword, hbang⟩ := isOperatorText_binary hmark hkind
    rw [List.append_assoc] at heq
    cases h' with
    | literal hleaf' =>
      exact absurd heq.symm (hleaf'.isLeafText.append_ne_operator hword hr')
    | unary hkind' hform' =>
      rw [List.append_assoc] at heq
      exact absurd (hword.append_inj isOperatorText_bang heq).1 hbang
    | binary hkind' hmark' hl' hright' =>
      simp only [List.cons_append, List.append_assoc] at heq
      obtain ⟨rfl, hmore⟩ := hword.append_inj (isOperatorText_binary hmark' hkind').1 heq
      have hspace (more : List Char) : EndsForm (' ' :: more) := endsForm_cons (by decide) more
      obtain ⟨hleft, hmore⟩ := ihl hl' (hspace _) (hspace _) hmore
      obtain ⟨hright, hrest⟩ := ihr hright' hr hr' (List.cons.inj hmore).2
      exact ⟨.binary ((kind_eq_iff_of_mem_marks hmark hmark').mpr rfl) hleft hright, hrest⟩
    | grouping hform' => exact absurd heq (hword.isWord.append_ne_opening _ _)
  | grouping hform ih =>
    cases h' with
    | literal hleaf' =>
      exact absurd heq.symm (hleaf'.isLeafText.isWord.append_ne_opening _ _)
    | unary hkind' hform' =>
      rw [List.append_assoc] at heq
      exact absurd heq.symm (isOperatorText_bang.isWord.append_ne_opening _ _)
    | binary hkind' hmark' hl' hr' =>
      rw [List.append_assoc] at heq
      have hword' := (isOperatorText_binary hmark' hkind').1
      exact absurd heq.symm (hword'.isWord.append_ne_opening _ _)
    | grouping hform' =>
      simp only [List.cons_append, List.append_assoc, List.cons.injEq, true_and] at heq
      have hclosing (more : List Char) : EndsForm (')' :: more) := endsForm_cons (by decide) more
      obtain ⟨hinner, hrest⟩ := ih hform' (hclosing _) (hclosing _) heq
      exact ⟨.grouping hinner, (List.cons.inj hrest).2⟩

/-- What is shown of a tree is all that its form is made of. -/
theorem Resembles.prefixForm_eq {e e' : Expr} (h : e.Resembles e') (hp : e.IsPlain)
    (hp' : e'.IsPlain) : e.prefixForm = e'.prefixForm := by
  induction h with
  | literal hkind htext => rw [prefixForm, prefixForm, htext, hkind]
  | unary hkind h ih =>
    obtain ⟨-, hlexeme, hoperand⟩ := hp
    obtain ⟨-, hlexeme', hoperand'⟩ := hp'
    rw [prefixForm, prefixForm, ih hoperand hoperand', hlexeme, hlexeme']
  | binary hkind hl hr ihl ihr =>
    obtain ⟨-, hmark, hleft, hright⟩ := hp
    obtain ⟨-, hmark', hleft', hright'⟩ := hp'
    have hlexeme := String.toList_inj.mp ((kind_eq_iff_of_mem_marks hmark hmark').mp hkind)
    rw [prefixForm, prefixForm, ihl hleft hleft', ihr hright hright', hlexeme]
  | grouping h ih => rw [prefixForm, prefixForm, ih hp hp']

/-- Trees without strings and minus signs before operands all have a prefix form, and two of them
have the same one exactly if they are of the same shape, with the same operators and groups in the
same places, and their leaves are the same keywords and show the same numbers. -/
theorem prefixForm_eq_iff {e e' : Expr} (h : e.IsPlain) (h' : e'.IsPlain) :
    (∃ text, e.prefixForm = .ok text) ∧ (e.prefixForm = e'.prefixForm ↔ e.Resembles e') := by
  obtain ⟨text, htext, hform⟩ := h.exists_form
  obtain ⟨text', htext', hform'⟩ := h'.exists_form
  refine ⟨⟨text, htext⟩, fun heq => ?_, fun hsame => hsame.prefixForm_eq h h'⟩
  rw [htext, htext'] at heq
  obtain rfl := Except.ok.inj heq
  have hend : EndsForm [] := nofun
  exact (hform.resembles hform' hend hend rfl).1

/-- The negation of a comparison, and the comparison of a negation: the marks in `! != nil 1` and
`!= ! nil 1` begin alike. -/
theorem prefixForm_eq_iff_negation :
    let not : Token := ⟨1, .bang, "!", none⟩
    let differs : Token := ⟨1, .bangEqual, "!=", none⟩
    let nothing : Expr := .literal ⟨1, .keyword .nilWord, "nil", none⟩
    let one : Expr := .literal ⟨1, .number, "1.0", some (.number 1)⟩
    let outer := unary not (binary nothing differs one)
    let inner := binary (unary not nothing) differs one
    outer.IsPlain ∧ inner.IsPlain ∧ outer.prefixForm ≠ inner.prefixForm := by
  intro not differs nothing one outer inner
  have hnothing : nothing.IsPlain := ⟨rfl, by decide⟩
  have hone : one.IsPlain := ⟨⟨1, rfl⟩, by simp⟩
  have houter : outer.IsPlain := ⟨rfl, rfl, rfl, by decide, hnothing, hone⟩
  have hinner : inner.IsPlain := ⟨rfl, by decide, ⟨rfl, rfl, hnothing⟩, hone⟩
  refine ⟨houter, hinner, fun heq => ?_⟩
  have hsame : (unary not (binary nothing differs one)).Resembles
      (binary (unary not nothing) differs one) := (prefixForm_eq_iff houter hinner).2.mp heq
  nomatch hsame

end Lox.Expr
