import Lox.Proofs.Json.Written
import Lox.Proofs.Run.Report

/-!
Reports read back from their text. The text of the report on any run is one JSON object, and it is
decoded to everything that the report tells, character for character (`report_decodes`). Only of
finite numbers is no more said than how they are written.
-/

namespace Lox

open Json (Datum)

/-! ## What parts of a report are decoded to -/

/-- What is not there is decoded to null. -/
def Json.Datum.ofOption {α : Type} (f : α → Datum) : Option α → Datum
  | none => .null
  | some a => f a

def Literal.datum : Literal → Datum
  | number x => .ofFloat x
  | string s => .text s

def Token.literalDatum (t : Token) : Datum :=
  .ofOption Literal.datum t.literal

def Token.datum (t : Token) : Datum :=
  .object [("line", .integer t.line), ("kind", .text t.kind.name), ("lexeme", .text t.lexeme),
    ("literal", t.literalDatum)]

def Value.datum : Value → Datum
  | number x => .ofFloat x
  | string s => .text s
  | boolean b => .boolean b
  | nil => .null

namespace Report

def tokensDatum (report : Report) : Datum :=
  .ofOption (fun ts => .list (ts.map Token.datum)) report.tokens

def astDatum (report : Report) : Datum :=
  .ofOption .text report.ast

def valueDatum (report : Report) : Datum :=
  .ofOption Value.datum report.value

end Report

/-! ## Values as they are written -/

section
variable {α : Type}

theorem Json.datum_ofOption {f : α → Json} {g : α → Datum} (h : ∀ a, (f a).datum = g a)
    (a? : Option α) : (Json.ofOption f a?).datum = .ofOption g a? := by
  cases a? with
  | none => rfl
  | some a => exact h a

theorem Json.itemData_map {f : α → Json} {g : α → Datum} (h : ∀ a, (f a).datum = g a)
    (as : List α) : Json.itemData (as.map f) = as.map g := by
  induction as with
  | nil => rfl
  | cons a as ih => rw [List.map_cons, Json.itemData, h, ih, List.map_cons]

theorem Json.datum_list_map {f : α → Json} {g : α → Datum} (h : ∀ a, (f a).datum = g a)
    (as : List α) : (Json.list (as.map f)).datum = .list (as.map g) := by
  rw [Json.datum, Json.itemData_map h]

end

theorem Literal.datum_json (l : Literal) : l.json.datum = l.datum := by
  cases l <;> simp [json, Json.datum, datum]

theorem Value.datum_json (v : Value) : v.json.datum = v.datum := by
  cases v <;> simp [json, Json.datum, datum]

theorem Token.datum_json (t : Token) : t.json.datum = t.datum := by
  have hliteral : (Json.ofOption Literal.json t.literal).datum = t.literalDatum :=
    Json.datum_ofOption Literal.datum_json t.literal
  simp [json, Json.datum, Json.memberData, hliteral, datum]

theorem Report.datum_json (report : Report) : report.json.datum = .object [
    ("tokens", report.tokensDatum), ("ast", report.astDatum), ("value", report.valueDatum),
    ("syntax_errors", .list (report.syntaxErrors.map .text)),
    ("runtime_errors", .list (report.runtimeErrors.map .text))] := by
  have htext (s : String) : (Json.text s).datum = .text s := by rw [Json.datum]
  have htokens : (Json.ofOption (fun ts => .list (ts.map Token.json)) report.tokens).datum =
      report.tokensDatum :=
    Json.datum_ofOption (Json.datum_list_map Token.datum_json) report.tokens
  have hast : (Json.ofOption .text report.ast).datum = report.astDatum :=
    Json.datum_ofOption htext report.ast
  have hvalue : (Json.ofOption Value.json report.value).datum = report.valueDatum :=
    Json.datum_ofOption Value.datum_json report.value
  simp only [json, Json.datum, Json.memberData, htokens, hast, hvalue,
    Json.itemData_map htext]

/-! ## Nulls -/

theorem Json.Datum.ofOption_eq_null_iff {α : Type} (f : α → Datum) (a? : Option α) :
    Datum.ofOption f a? = .null ↔ a? = none ∨ ∃ a, a? = some a ∧ f a = .null := by
  cases a? <;> simp [ofOption]

theorem Token.literalDatum_eq_null_iff (t : Token) : t.literalDatum = .null ↔
    t.literal = none ∨ ∃ x, t.literal = some (.number x) ∧ x.isFinite = false := by
  rw [literalDatum, Datum.ofOption_eq_null_iff]
  refine or_congr_right ⟨?_, ?_⟩
  · rintro ⟨l, hl, hnull⟩
    cases l with
    | number x => exact ⟨x, hl, (Datum.ofFloat_eq_null_iff x).mp hnull⟩
    | string s => cases hnull
  · rintro ⟨x, hl, hx⟩
    exact ⟨.number x, hl, (Datum.ofFloat_eq_null_iff x).mpr hx⟩

theorem Report.valueDatum_eq_null_iff (report : Report) : report.valueDatum = .null ↔
    report.value = none ∨ report.value = some .nil ∨
      ∃ x, report.value = some (.number x) ∧ x.isFinite = false := by
  rw [valueDatum, Datum.ofOption_eq_null_iff]
  refine or_congr_right ⟨?_, ?_⟩
  · rintro ⟨v, hv, hnull⟩
    cases v with
    | number x => exact .inr ⟨x, hv, (Datum.ofFloat_eq_null_iff x).mp hnull⟩
    | string s => cases hnull
    | boolean b => cases hnull
    | nil => exact .inl hv
  · rintro (hv | ⟨x, hv, hx⟩)
    · exact ⟨.nil, hv, rfl⟩
    · exact ⟨.number x, hv, (Datum.ofFloat_eq_null_iff x).mpr hx⟩

/-- The report on any run, whatever is on record behind it, has a text that is one JSON object with
five members in their order. It is decoded to the kinds, lexemes, lines and literals of all tokens,
to the tree in prefix form, to the value, and to the texts of all errors on record in their order.
What is decoded to null is not there, is nil, or is a number that is not finite. -/
theorem report_decodes (source : String) (limit : Nat) (d : Diagnostics) :
    ∃ r d' report, run source limit d = .ok (r, d') ∧ Report.ofRun r d' = .ok (report, .empty) ∧
      report.Tells r d' ∧ Json.WellFormed .value report.text.toList ∧
      Json.decode? report.text = some (.object [("tokens", report.tokensDatum),
        ("ast", report.astDatum), ("value", report.valueDatum),
        ("syntax_errors", .list (d'.syntaxErrors.map fun e => .text e.text)),
        ("runtime_errors", .list (d'.runtimeErrors.map fun e => .text e.text))]) ∧
      (report.tokensDatum = .null ↔ report.tokens = none) ∧
      (report.astDatum = .null ↔ report.ast = none) ∧
      (report.valueDatum = .null ↔ report.value = none ∨ report.value = some .nil ∨
        ∃ x, report.value = some (.number x) ∧ x.isFinite = false) ∧
      ∀ t ∈ r.tokens, (t.literalDatum = .null ↔
        t.literal = none ∨ ∃ x, t.literal = some (.number x) ∧ x.isFinite = false) := by
  obtain ⟨⟨r, d'⟩, hrun, houtcome⟩ := run_outcome source limit d
  obtain ⟨report, hreport, htells⟩ := houtcome.exists_tells d'
  obtain ⟨hformed, hdecode⟩ := Json.decode?_write Json.Style.isSpaced_indented report.json
  refine ⟨r, d', report, hrun, hreport, htells, ?_, ?_, ?_, ?_, report.valueDatum_eq_null_iff,
    fun t _ => t.literalDatum_eq_null_iff⟩
  · rwa [Report.text, Json.pretty, String.toList_ofList]
  · rw [Report.text, Json.pretty, hdecode, report.datum_json, htells.syntaxErrors_eq,
      htells.runtimeErrors_eq, List.map_map, List.map_map]
    rfl
  · rw [Report.tokensDatum, Datum.ofOption_eq_null_iff]
    simp
  · rw [Report.astDatum, Datum.ofOption_eq_null_iff]
    simp

end Lox
