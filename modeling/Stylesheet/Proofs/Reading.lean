import Stylesheet.Proofs.Layout
import Stylesheet.Proofs.Passing
import Stylesheet.Sheet.Drafting

/-!
# Readings

`Reading c slots c' reports` says how slots may be filled by the lexemes between two cursors, and
which reports go with that. It has one constructor for each thing a production may do: make a piece
of lexemes, put a missing piece with its report, leave a slot empty, make a node of slots that were
filled. Every production is a reading (`Proofs/Reading/`), and what holds of all readings, by
induction, holds of every parse.

Results:
* `Reading.passes`: the lexemes below the slots are those between the cursors, in their order.
* `Outcome.Fills`: a production's outcome is a reading, and nothing went wrong on the way.
-/
namespace Stylesheet

/-- The kind a piece may have, from the lexemes it is made of. -/
inductive Piece.Takes : Kind → Lexeme → List Lexeme → Prop
  | same (l : Lexeme) : Takes l.kind l []
  | name {l : Lexeme} (h : l.kind.isKeyword) : Takes .identifier l []
  | value (first : Lexeme) (more : List Lexeme) : Takes .propertyValueToken first more
  | important {mark word : Lexeme} (hm : mark.kind = .exclamationMark)
      (hw : word.kind = .importantKeyword) : Takes .importantKeyword mark [word]

/-- A run has a kind that it may take, and a token that is missing has a kind of token. -/
def Piece.Holds : Piece → Prop
  | .run kind first more => Takes kind first more
  | .missing kind => kind.isToken

@[simp] theorem Piece.holds_run {kind : Kind} {first : Lexeme} {more : List Lexeme} :
    (Piece.run kind first more).Holds ↔ Takes kind first more := Iff.rfl

@[simp] theorem Piece.holds_missing {kind : Kind} :
    (Piece.missing kind).Holds ↔ kind.isToken := Iff.rfl

theorem Piece.Holds.isToken {p : Piece} (h : p.Holds) (hl : ∀ l ∈ p.lexemes, l.kind.isToken) :
    p.kind.isToken := by
  cases p with
  | missing kind => exact h
  | run kind first more =>
    cases h with
    | same l => exact hl _ (List.mem_cons_self ..)
    | name | value | important => rfl

/-- A run that its role has nothing against. -/
def SlotRole.Admits (role : SlotRole) (kind : Kind) (first : Lexeme) (more : List Lexeme) : Prop :=
  match role with
  | .argument => kind = .comma ∨ kind = .handledKeyword ∨ kind = .setHandledKeyword
  | .loopBehavior => Production.isLoopBehavior first.text ∧ more = []
  | .covered => False
  | _ => True

theorem SlotRole.admits_plain (kind : Kind) (first : Lexeme) (more : List Lexeme) :
    SlotRole.plain.Admits kind first more := trivial

/-- Triggers of either sort. -/
def Kind.isTrigger (kind : Kind) : Bool := kind = .propertyTrigger || kind = .eventTrigger

theorem Kind.isTrigger_iff {kind : Kind} :
    kind.isTrigger ↔ kind = .propertyTrigger ∨ kind = .eventTrigger := by
  simp [isTrigger]

theorem Kind.isComposite_of_isToken {kind : Kind} (h : kind.isToken) : kind.isComposite = false := by
  unfold isToken at h
  rw [Bool.and_eq_true, decide_eq_true_iff] at h
  unfold isComposite
  rw [decide_eq_false_iff_not]
  omega

/-- A node of a kind that its role has nothing against. -/
def SlotRole.Houses (role : SlotRole) (kind : Kind) : Prop :=
  match role with
  | .plain => True
  | .item => kind.isTrigger = false
  | _ => False

/-- Kinds whose nodes have no fixed row of slots. -/
def Kind.isLoose (kind : Kind) : Bool := kind = .list || kind = .error

/-- The kind of the last of several drafts. -/
def Draft.lastKind? (items : List Draft) : Option Kind := items.getLast?.map Draft.kind

inductive Reading : Cursor → List (SlotRole × Option Draft) → Cursor → List Diagnostic → Prop
  | nil (c) : Reading c [] c []
  | append {c c₁ c₂ a b r₁ r₂} (h₁ : Reading c a c₁ r₁) (h₂ : Reading c₁ b c₂ r₂) :
      Reading c (a ++ b) c₂ (r₁ ++ r₂)
  | empty {role} (c) (h : role ≠ .needed) : Reading c [(role, none)] c []
  /-- A list without items where there should be some. -/
  | needed (c) {p : Problem} (hp : p.code = .missingToken) :
      Reading c [(.needed, none)] c [p.reportAt c.gap]
  | run {role c c' kind first more} (ht : Piece.Takes kind first more)
      (hc : c.Passes (first :: more) c') (ha : role.Admits kind first more) :
      Reading c [(role, some (.token (.run kind first more)))] c' []
  | unknownArgument {c c' l} (hc : c.Passes [l] c') (hn : l.kind.isName)
      (h₁ : l.kind ≠ .handledKeyword) (h₂ : l.kind ≠ .setHandledKeyword) :
      Reading c [(.argument, some (.single l.kind l))] c'
        [(Problem.unknownEventArgument l.text).reportAt c.span]
  | unknownLoop {c c' l} (hc : c.Passes [l] c') (ht : Piece.Takes .identifier l [])
      (h : Production.isLoopBehavior l.text = false) :
      Reading c [(.loopBehavior, some (.single .identifier l))] c'
        [(Problem.unknownLoopBehavior l.text).reportAt c.span]
  | lacking {role kind} {p : Problem} (c) (hk : kind.isToken) (hp : p.code = .missingToken)
      (hr : role ≠ .covered) : Reading c [(role, some (.missing kind))] c [p.reportAt c.gap]
  | covered {kind} (c) (hk : kind.isToken) : Reading c [(.covered, some (.missing kind))] c []
  | node {role c c' kind slots r} (h : Reading c (Draft.withRoles kind slots) c' r)
      (hk : kind.isComposite) (hl : kind.isLoose = false) (hs : Conforms kind slots)
      (hr : role.Houses kind) : Reading c [(role, some (.composite kind slots))] c' r
  /-- A trigger among the items of a style sheet. -/
  | misplaced {c c' kind l rest r}
      (h : Reading c (Draft.withRoles kind (some (.single .triggerKeyword l) :: rest)) c' r)
      (hk : kind.isTrigger) (hs : Conforms kind (some (.single .triggerKeyword l) :: rest)) :
      Reading c [(.item, some (.composite kind (some (.single .triggerKeyword l) :: rest)))] c'
        (Problem.misplacedTrigger.reportAt c.span :: r)
  | list {role c c' r} {items : List Draft} (hn : items ≠ [])
      (h : Reading c (items.map fun d => (role.inner, some d)) c' r)
      (hr : role ≠ .covered) (hc : Draft.lastKind? items ≠ some .comma) :
      Reading c [(role, some (.composite .list (items.map some)))] c' r
  /-- A list that ends with a comma. -/
  | trailing {role c c' r} {items : List Draft} (listed : Listed) (hn : items ≠ [])
      (h : Reading c (items.map fun d => (role.inner, some d)) c' r)
      (hr : role ≠ .covered) (hc : Draft.lastKind? items = some .comma) :
      Reading c [(role, some (.composite .list (items.map some)))] c'
        (r ++ [(Problem.nothingAfterComma listed).reportAt c'.span])
  | error {role c c'} {l : Lexeme} {more : List Lexeme} (hc : c.Passes (l :: more) c')
      (hr : role = .plain ∨ role = .item) :
      Reading c
        [(role, some (.composite .error ((l :: more).map fun l => some (.single l.kind l))))] c'
        [(Problem.unexpected l.kind).reportAt c.span]

namespace Reading

variable {c c' : Cursor} {slots : List (SlotRole × Option Draft)} {r : List Diagnostic}

theorem append_slots {a b : List (SlotRole × Option Draft)} :
    Draft.lexemesOf ((a ++ b).map Prod.snd)
      = Draft.lexemesOf (a.map Prod.snd) ++ Draft.lexemesOf (b.map Prod.snd) := by
  simp

/-- The lexemes below the slots are those between the cursors. -/
theorem passes (h : Reading c slots c' r) : c.Passes (Draft.lexemesOf (slots.map Prod.snd)) c' := by
  induction h with
  | nil | empty | needed | lacking | covered => exact Cursor.Passes.refl _
  | append _ _ ih₁ ih₂ => rw [append_slots]; exact ih₁.trans ih₂
  | run _ hc | unknownArgument hc | unknownLoop hc => simpa using hc
  | node _ _ _ _ _ ih | misplaced _ _ _ ih => simpa using ih
  | list _ _ _ _ ih | trailing _ _ _ _ _ ih =>
    simpa [Function.comp_def] using ih
  | error hc =>
    rw [List.map_singleton, Draft.lexemesOf_some, Draft.lexemes_composite, Draft.lexemesOf_singles]
    simpa using hc

/-- The pieces below the slots hold what they may. -/
theorem holds (h : Reading c slots c' r) : ∀ p ∈ Draft.piecesOf (slots.map Prod.snd), p.Holds := by
  induction h with
  | nil | empty | needed => simp
  | append _ _ ih₁ ih₂ =>
    rw [List.map_append, Draft.piecesOf_append]
    intro p hp
    exact (List.mem_append.mp hp).elim (ih₁ p) (ih₂ p)
  | run ht | unknownLoop _ ht => simpa using ht
  | unknownArgument => simpa using .same _
  | lacking _ hk | covered _ hk => simpa using hk
  | node _ _ _ _ _ ih | misplaced _ _ _ ih => simpa using ih
  | list _ _ _ _ ih | trailing _ _ _ _ _ ih => simpa [Function.comp_def] using ih
  | error =>
    rw [List.map_singleton, Draft.piecesOf_some, Draft.tokens_composite, Draft.piecesOf_singles]
    simpa using ⟨.same _, fun _ _ => .same _⟩

end Reading

/-! ## Outcomes -/

/-- The outcome of a production at a cursor fills slots, and nothing went wrong. -/
structure Outcome.Fills {α : Type} (o : Outcome α) (c : Cursor)
    (slots : List (SlotRole × Option Draft)) : Prop where
  reading : Reading c slots o.rest o.reports
  faultless : o.faults = []

/-- Outcomes one after the other. -/
theorem Outcome.Fills.append {α β γ : Type} {o : Outcome α} {o₂ : Outcome β} {c : Cursor}
    {a b : List (SlotRole × Option Draft)} (h₁ : o.Fills c a) (h₂ : o₂.Fills o.rest b) {v : γ} :
    Outcome.Fills ⟨v, o₂.rest, o.reports ++ o₂.reports, o.faults ++ o₂.faults⟩ c (a ++ b) :=
  ⟨h₁.reading.append h₂.reading, by rw [h₁.faultless, h₂.faultless]; rfl⟩

/-- The outcome fills one slot, with what the slot is for. -/
structure Outcome.Puts {α : Type} (o : Outcome α) (c : Cursor) (role : SlotRole)
    (slot : Option Draft) (rule : SlotRule) : Prop extends o.Fills c [(role, slot)] where
  allowed : rule.Allows slot

/-- The outcome fills a row of slots, each with what it is for. -/
structure Outcome.Row {α : Type} (o : Outcome α) (c : Cursor)
    (slots : List (SlotRole × Option Draft)) (rules : List SlotRule) : Prop
    extends o.Fills c slots where
  allowed : List.Forall₂ SlotRule.Allows rules (slots.map Prod.snd)

namespace Outcome.Row

variable {α β : Type} {c : Cursor} {role : SlotRole} {slot : Option Draft} {rule : SlotRule}
  {slots : List (SlotRole × Option Draft)} {rules : List SlotRule} {o : Outcome α} {o₂ : Outcome β}

/-- No slot, and nothing read. -/
theorem done (v : α) (c : Cursor) : Outcome.Row ⟨v, c, [], []⟩ c [] [] := ⟨⟨.nil c, rfl⟩, .nil⟩

/-- One slot more, in front of a row. -/
theorem cons (h₁ : o.Puts c role slot rule) (h₂ : o₂.Row o.rest slots rules) {v : β} :
    Outcome.Row ⟨v, o₂.rest, o.reports ++ o₂.reports, o.faults ++ o₂.faults⟩ c
      ((role, slot) :: slots) (rule :: rules) :=
  ⟨h₁.toFills.append h₂.toFills, .cons h₁.allowed h₂.allowed⟩

/-- A row of one slot. -/
theorem only (h : o.Puts c role slot rule) {v : β} :
    Outcome.Row ⟨v, o.rest, o.reports, o.faults⟩ c [(role, slot)] [rule] :=
  ⟨⟨h.reading, h.faultless⟩, .cons h.allowed .nil⟩

/-- A look reads nothing. -/
theorem seen {view : Cursor → α} {f : α → Production β} (h : (f (view c) c).Row c slots rules) :
    ((Production.look view >>= f) c).Row c slots rules :=
  ⟨⟨h.reading, h.faultless⟩, h.allowed⟩

/-- A slot that stays empty in front of a row. -/
theorem skip (h : o.Row c slots rules) (ho : rule.mayBeEmpty = true) :
    o.Row c ((.plain, none) :: slots) (rule :: rules) :=
  have hempty : Reading c [(.plain, none)] c [] := .empty c (by decide)
  ⟨⟨hempty.append h.reading, h.faultless⟩, .cons ho h.allowed⟩

/-- A missing token in front of a row, that another report covers. -/
theorem cover {kind : Kind} (h : o.Row c slots rules) (hk : kind.isToken) :
    o.Row c ((.covered, some (.missing kind)) :: slots) (.one kind :: rules) := by
  have hmissing : Reading c [(.covered, some (.missing kind))] c [] := .covered c hk
  exact ⟨⟨hmissing.append h.reading, h.faultless⟩,
    .cons (by simp [SlotRule.one, SlotRule.Allows]) h.allowed⟩

end Outcome.Row

/-- A node of a row of slots. -/
theorem Outcome.Puts.node {α : Type} {o : Outcome α} {c : Cursor} {role : SlotRole} {kind : Kind}
    {rule : SlotRule} {slots : List (Option Draft)}
    (h : o.Row c (Draft.withRoles kind slots) kind.layout) (hr : role.Houses kind)
    (hk : kind.isComposite) (hl : kind.isLoose = false) (hm : kind ∈ rule.kinds) :
    o.Puts c role (some (.composite kind slots)) rule :=
  ⟨⟨h.reading.node hk hl (by simpa [Conforms] using h.allowed) hr, h.faultless⟩, hm, nofun⟩

/-- What fills a slot fills one that allows more. -/
theorem Outcome.Puts.widen {α : Type} {o : Outcome α} {c : Cursor} {role : SlotRole} {d : Draft}
    {rule rule' : SlotRule} (h : o.Puts c role (some d) rule)
    (hk : ∀ k ∈ rule.kinds, k ∈ rule'.kinds) (hr : rule.mayBeMissing = true → rule'.mayBeMissing = true) :
    o.Puts c role (some d) rule' :=
  ⟨h.toFills, hk _ h.allowed.1, fun hm => hr (h.allowed.2 hm)⟩

theorem Outcome.Puts.filled {α : Type} {o : Outcome α} {c : Cursor} {role : SlotRole} {d : Draft}
    {kind : Kind} (h : o.Puts c role (some d) (.maybe kind)) : o.Puts c role (some d) (.one kind) :=
  h.widen (fun _ hk => hk) (fun _ => rfl)

end Stylesheet
