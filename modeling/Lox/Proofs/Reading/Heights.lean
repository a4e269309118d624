import Lox.Proofs.Reading.Depth

/-!
Heights and depths of a reading. The height of a tree is carried beside it, never counted, and what
a reading has built is lost where it fails later on. So a reading is told once more with a journal:
each nesting that it opens, each height that it works out and each tree that it builds is entered,
and the journal is kept however the reading ends. Without the journal it is the reading itself, and
nothing that is entered goes beyond the limit (`Records`). The stream may be any, with or without an
end marker.
-/

namespace Lox.Reading

/-! ## Journals -/

inductive Event
  /-- A nesting has been opened, and so many are open now. -/
  | opened (depth : Nat)
  /-- A height has been worked out, for a tree that is not built yet. -/
  | weighed (height : Nat)
  /-- A tree has been built, whether it is kept or not. -/
  | built (tree : Measured)

/-- The tree is as high as it is said to be, and not higher than the limit. -/
structure Tracked (limit : Nat) (m : Measured) : Prop where
  height_eq : m.height = m.expr.height
  le_limit : m.height ≤ limit

theorem Tracked.pos {limit : Nat} {m : Measured} (h : Tracked limit m) : 1 ≤ m.height :=
  h.height_eq ▸ m.expr.height_pos

/-- The entry respects the limit. A height is worked out ahead of its check, so it may be one more
than the limit, and no more than that. -/
def Event.Within (limit : Nat) : Event → Prop
  | opened depth => depth ≤ limit
  | weighed height => height ≤ limit + 1
  | built tree => Tracked limit tree

/-- A reading that comes with the entries that it has made. -/
def Journaled (α : Type) : Type :=
  Cursor → EStateM.Result (Halt ParseError) Cursor α × List Event

namespace Journaled

variable {α : Type}

instance : Monad Journaled where
  pure a := fun c => (.ok a c, [])
  bind r f := fun c => match r c with
    | (.ok a c, events) => ((f a c).1, events ++ (f a c).2)
    | (.error e c, events) => (.error e c, events)

/-- A reading that has nothing to enter. -/
def plain (r : Reading α) : Journaled α := fun c =>
  (r c, [])

def enter (event : Event) : Journaled Unit := fun c =>
  (.ok () c, [event])

def build (tree : Measured) : Journaled Measured := do
  enter (.built tree)
  pure tree

section
variable (tokens : Array Token) (limit : Nat)

def checkHeight (top : Token) (height : Nat) : Journaled Unit := do
  enter (.weighed height)
  plain (Reading.checkHeight limit top height)

def nested (body : Journaled α) : Journaled α := fun c =>
  if limit ≤ c.depth then plain (refuse (seen tokens c) .nestsTooDeeply) c
  else (shallower (body (deeper c)).1, .opened (c.depth + 1) :: (body (deeper c)).2)

def fold (level : Level) (operand : Journaled Measured) : Nat → Measured → Journaled Measured
  | 0, left => pure left
  | steps + 1, left => do
    match ← plain (operator? tokens (fun k => k.level? = some level)) with
    | none => pure left
    | some op =>
      let right ← operand
      let height := max left.height right.height + 1
      checkHeight limit op height
      fold level operand steps (← build ⟨.binary left.expr op right.expr, height⟩)

def chain (level : Level) (operand : Journaled Measured) : Journaled Measured := do
  fold tokens limit level operand (tokens.size + 1) (← operand)

def binary (operand : Journaled Measured) : Journaled Measured :=
  Level.all.foldr (chain tokens limit) operand

def primary (inner : Journaled Measured) : Journaled Measured := do
  let t ← plain (current tokens)
  if t.kind.isLeaf then
    plain (advance tokens)
    build ⟨.literal t, 1⟩
  else if t.kind = .leftParen then
    plain (advance tokens)
    let tree ← inner
    let close ← plain (current tokens)
    if close.kind = .rightParen then
      plain (advance tokens)
      checkHeight limit t (tree.height + 1)
      build ⟨.grouping tree.expr, tree.height + 1⟩
    else
      plain (refuse close .expectClosingParen)
  else
    plain (refuse t .expectExpression)

def unary : Nat → Journaled Measured
  | 0 => nested tokens limit (plain (do refuse (← current tokens) .nestsTooDeeply))
  | room + 1 => nested tokens limit do
    match ← plain (operator? tokens TokenKind.isUnary) with
    | some op =>
      let operand ← unary room
      checkHeight limit op (operand.height + 1)
      build ⟨.unary op operand.expr, operand.height + 1⟩
    | none => primary tokens limit (binary tokens limit (unary room))

end

end Journaled

/-! ## What is recorded -/

/-- The journal belongs to the reading and changes nothing in it, its entries are within the limit,
and what the reading comes to has the property. -/
structure Records {α : Type} (limit : Nat) (j : Journaled α) (r : Reading α) (P : α → Prop) :
    Prop where
  result_eq : ∀ c, (j c).1 = r c
  within : ∀ c, ∀ event ∈ (j c).2, event.Within limit
  holds : ∀ {c a c'}, r c = .ok a c' → P a

namespace Records

variable {α β : Type} {tokens : Array Token} {limit : Nat}

theorem plain {r : Reading α} {P : α → Prop} (h : ∀ {c a c'}, r c = .ok a c' → P a) :
    Records limit (Journaled.plain r) r P :=
  ⟨fun _ => rfl, fun _ _ he => absurd he List.not_mem_nil, h⟩

/-- A reading of which nothing is to be known but that it enters nothing. -/
theorem plain_true (r : Reading α) : Records limit (Journaled.plain r) r fun _ => True :=
  plain fun _ => trivial

theorem pure {a : α} {P : α → Prop} (h : P a) : Records limit (Pure.pure a) (Pure.pure a) P :=
  plain fun heq => by cases heq; exact h

theorem refuse (t : Token) (cause : ParseError.Cause) {P : α → Prop} :
    Records limit (Journaled.plain (Reading.refuse t cause)) (Reading.refuse t cause) P :=
  plain fun heq => nomatch heq

theorem bind {j : Journaled α} {r : Reading α} {f : α → Journaled β} {g : α → Reading β}
    {P : α → Prop} {Q : β → Prop} (hr : Records limit j r P)
    (hf : ∀ a, P a → Records limit (f a) (g a) Q) : Records limit (j >>= f) (r >>= g) Q := by
  have hj (c : Cursor) : j c = (r c, (j c).2) := Prod.ext (hr.result_eq c) rfl
  have hok {c a c'} (h : r c = .ok a c') :
      (j >>= f) c = ((f a c').1, (j c).2 ++ (f a c').2) := by
    have hc := hj c
    rw [h] at hc
    simp only [Bind.bind]
    rw [hc]
  have herror {c e c'} (h : r c = .error e c') : (j >>= f) c = (.error e c', (j c).2) := by
    have hc := hj c
    rw [h] at hc
    simp only [Bind.bind]
    rw [hc]
  refine ⟨fun c => ?_, fun c event he => ?_, fun {c b c''} h => ?_⟩
  · cases hread : r c with
    | ok a c' =>
      rw [hok hread, bind_of_ok hread]
      exact (hf a (hr.holds hread)).result_eq c'
    | error e c' => rw [herror hread, bind_of_error hread]
  · cases hread : r c with
    | ok a c' =>
      rw [hok hread] at he
      rcases List.mem_append.mp he with he | he
      · exact hr.within c event he
      · exact (hf a (hr.holds hread)).within c' event he
    | error e c' =>
      rw [herror hread] at he
      exact hr.within c event he
  · obtain ⟨a, c', hread, hrest⟩ := exists_of_bind_eq_ok h
    exact (hf a (hr.holds hread)).holds hrest

/-- A height that is worked out from heights within the limit, and what it is checked for. -/
theorem checkHeight (top : Token) {height : Nat} (h : height ≤ limit + 1) :
    Records limit (Journaled.checkHeight limit top height) (Reading.checkHeight limit top height)
      fun _ => height ≤ limit := by
  refine ⟨fun _ => rfl, fun c event he => ?_, fun {c a c'} hread => ?_⟩
  · obtain rfl : event = .weighed height := by
      simpa [Journaled.checkHeight, Bind.bind, Journaled.enter, Journaled.plain] using he
    exact h
  · unfold Reading.checkHeight at hread
    split at hread
    · cases hread
    · next hle => exact Nat.le_of_not_lt hle

theorem build {tree : Measured} (h : Tracked limit tree) :
    Records limit (Journaled.build tree) (Pure.pure tree) (Tracked limit) := by
  refine ⟨fun _ => rfl, fun c event he => ?_, fun heq => by cases heq; exact h⟩
  obtain rfl : event = .built tree := by
    simpa [Journaled.build, Bind.bind, Pure.pure, Journaled.enter] using he
  exact h

/-- The nesting that is opened is within the limit, and where one can be opened the limit is not
zero. -/
theorem nested {body : Journaled α} {body' : Reading α} {P : α → Prop}
    (hb : 0 < limit → Records limit body body' P) :
    Records limit (Journaled.nested tokens limit body) (Reading.nested tokens limit body') P := by
  refine ⟨fun c => ?_, fun c event he => ?_, fun {c a c'} hread => ?_⟩
  all_goals by_cases hl : c.depth < limit
  · rw [nested_of_lt hl, ← (hb (by omega)).result_eq, Journaled.nested,
      if_neg (Nat.not_le_of_lt hl)]
  · rw [nested_of_not_lt hl, Journaled.nested, if_pos (Nat.le_of_not_lt hl)]
    rfl
  · rw [Journaled.nested, if_neg (Nat.not_le_of_lt hl)] at he
    rcases List.mem_cons.mp he with rfl | he
    · exact hl
    · exact (hb (by omega)).within _ event he
  · rw [Journaled.nested, if_pos (Nat.le_of_not_lt hl)] at he
    cases he
  · rw [nested_of_lt hl] at hread
    cases hbody : body' (deeper c) with
    | ok b d =>
      rw [hbody] at hread
      cases hread
      exact (hb (by omega)).holds hbody
    | error e d =>
      rw [hbody] at hread
      cases hread
  · rw [nested_of_not_lt hl] at hread
    cases hread

/-! ## The levels -/

variable {operand : Journaled Measured} {operand' : Reading Measured}

/-- The induction is on the steps: each one joins two trees within the limit, and goes on only if
the joint tree is. -/
theorem fold (level : Level) (ho : Records limit operand operand' (Tracked limit)) (steps : Nat)
    {left : Measured} (hleft : Tracked limit left) :
    Records limit (Journaled.fold tokens limit level operand steps left)
      (Reading.fold tokens limit level operand' steps left) (Tracked limit) := by
  induction steps generalizing left with
  | zero => exact pure hleft
  | succ steps ih =>
    refine bind (plain_true _) fun op? _ => ?_
    cases op? with
    | none => exact pure hleft
    | some op =>
      refine bind ho fun right hright => ?_
      have hle : max left.height right.height + 1 ≤ limit + 1 :=
        Nat.succ_le_succ (Nat.max_le.mpr ⟨hleft.le_limit, hright.le_limit⟩)
      refine bind (checkHeight op hle) fun _ hchecked => ?_
      have hjoint : Tracked limit
          ⟨.binary left.expr op right.expr, max left.height right.height + 1⟩ :=
        ⟨by simp only [Expr.height, hleft.height_eq, hright.height_eq], hchecked⟩
      exact bind (build hjoint) fun _ htree => ih htree

theorem chain (level : Level) (ho : Records limit operand operand' (Tracked limit)) :
    Records limit (Journaled.chain tokens limit level operand)
      (Reading.chain tokens limit level operand') (Tracked limit) :=
  bind ho fun _ hleft => fold level ho _ hleft

theorem levels (levels : List Level) (ho : Records limit operand operand' (Tracked limit)) :
    Records limit (levels.foldr (Journaled.chain tokens limit) operand)
      (levels.foldr (Reading.chain tokens limit) operand') (Tracked limit) := by
  induction levels with
  | nil => exact ho
  | cons level levels ih => exact chain level ih

/-- A leaf is within a limit that is not zero. -/
theorem primary {inner : Journaled Measured} {inner' : Reading Measured} (hlimit : 0 < limit)
    (hi : Records limit inner inner' (Tracked limit)) :
    Records limit (Journaled.primary tokens limit inner) (Reading.primary tokens limit inner')
      (Tracked limit) := by
  refine bind (plain_true _) fun t _ => ?_
  by_cases hl : t.kind.isLeaf
  · simp only [if_pos hl]
    exact bind (plain_true _) fun _ _ => build ⟨rfl, hlimit⟩
  by_cases hp : t.kind = .leftParen
  · simp only [if_neg hl, if_pos hp]
    refine bind (plain_true _) fun _ _ => bind hi fun tree htree => ?_
    refine bind (plain_true _) fun close _ => ?_
    by_cases hc : close.kind = .rightParen
    · simp only [if_pos hc]
      refine bind (plain_true _) fun _ _ => ?_
      refine bind (checkHeight t (Nat.succ_le_succ htree.le_limit)) fun _ hchecked => ?_
      exact build ⟨by simp only [Expr.height, htree.height_eq], hchecked⟩
    · simp only [if_neg hc]
      exact refuse close _
  · simp only [if_neg hl, if_neg hp]
    exact refuse t _

theorem unary (room : Nat) :
    Records limit (Journaled.unary tokens limit room) (Reading.unary tokens limit room)
      (Tracked limit) := by
  induction room with
  | zero =>
    refine nested fun _ => plain fun {c a c'} hread => ?_
    obtain ⟨t, d, -, hrefused⟩ := exists_of_bind_eq_ok hread
    cases hrefused
  | succ room ih =>
    refine nested fun hlimit => bind (plain_true _) fun op? _ => ?_
    cases op? with
    | none => exact primary hlimit (levels Level.all ih)
    | some op =>
      refine bind ih fun operand hoperand => ?_
      refine bind (checkHeight op (Nat.succ_le_succ hoperand.le_limit)) fun _ hchecked => ?_
      exact build ⟨by simp only [Expr.height, hoperand.height_eq], hchecked⟩

end Records

theorem KeepsDepth.levels {tokens : Array Token} {limit : Nat} {operand : Reading Measured}
    (levels : List Level) (ho : KeepsDepth operand) :
    KeepsDepth (levels.foldr (chain tokens limit) operand) := by
  induction levels with
  | nil => exact ho
  | cons level levels ih => exact bind ih fun left => fold ih _ left

/-- Readings of an operand, and of any levels of binary operators over operands, on any stream,
under any limit and from any cursor. A tree that is handed over is as high as it is said to be, and
so is every tree that has been built on the way, also in a reading that fails; none of them is
higher than the limit. No more nestings are opened than the limit allows, and those that were open
before are open in the end. No height and no depth that is worked out is greater than the limit by
more than one. -/
theorem heights_tracked (tokens : Array Token) (limit room : Nat) (levels : List Level)
    (c : Cursor) :
    let reading := levels.foldr (chain tokens limit) (unary tokens limit room)
    let journaled :=
      levels.foldr (Journaled.chain tokens limit) (Journaled.unary tokens limit room)
    (journaled c).1 = reading c ∧ (∀ event ∈ (journaled c).2, event.Within limit) ∧
      (∀ m c', reading c = .ok m c' →
        m.height = m.expr.height ∧ 1 ≤ m.height ∧ m.height ≤ limit) ∧
      (endOf (reading c)).depth = c.depth := by
  intro reading journaled
  have hrecords : Records limit journaled reading (Tracked limit) :=
    Records.levels levels (Records.unary room)
  have hkeeps : KeepsDepth reading :=
    .levels levels ((KeepsDepth.stepwise tokens limit).unary room)
  refine ⟨hrecords.result_eq c, hrecords.within c, fun m c' hread => ?_, hkeeps c⟩
  have htracked := hrecords.holds hread
  exact ⟨htracked.height_eq, htracked.pos, htracked.le_limit⟩

/-- A group that is not closed. The reading fails, and the trees inside are in its journal. -/
example :
    let opening : Token := ⟨1, .leftParen, "(", none⟩
    let minus : Token := ⟨1, .minus, "-", none⟩
    let yes : Token := ⟨1, .keyword .trueWord, "true", none⟩
    (Journaled.unary #[opening, minus, yes, .endMarker 1] 3 3 .start).2 =
      [.opened 1, .opened 2, .opened 3, .built ⟨.literal yes, 1⟩, .weighed 2,
        .built ⟨.unary minus (.literal yes), 2⟩] := rfl

end Lox.Reading
