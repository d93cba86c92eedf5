import Mathlib.Data.List.Forall2
import Stylesheet.Sheet.Draft

/-!
# What the slots of a node are for

Every kind of node but a list and an error has a fixed row of slots, and each slot is for elements
of certain kinds. A slot that must be filled may hold a missing token; one that may stay empty does
not, the owner of a name excepted: in front of `.name` an owner is missing.

Some slots ask for more than a kind, and what stands there is then reported in its own way: this is
the role a slot gives to what stands in it. A list hands its role on to its items.

Results:
* `Kind.length_layout`: a row has as many slots as nodes of the kind have.
* `Conforms`: the slots of a node hold what the row of its kind allows.
-/
namespace Stylesheet

def Piece.kind : Piece → Kind
  | .run kind _ _ => kind
  | .missing kind => kind

namespace Draft

def kind : Draft → Kind
  | .token p => p.kind
  | .node kind _ => kind

def isMissing : Draft → Bool
  | .token (.missing _) => true
  | _ => false

@[simp] theorem kind_composite (kind : Kind) (slots : List (Option Draft)) :
    (composite kind slots).kind = kind := rfl

@[simp] theorem kind_run (kind : Kind) (first : Lexeme) (more : List Lexeme) :
    Draft.kind (Tree.token (.run kind first more)) = kind := rfl

@[simp] theorem kind_single (kind : Kind) (l : Lexeme) : (single kind l).kind = kind := rfl

@[simp] theorem kind_missing (kind : Kind) : (missing kind).kind = kind := rfl

@[simp] theorem isMissing_composite (kind : Kind) (slots : List (Option Draft)) :
    (composite kind slots).isMissing = false := rfl

@[simp] theorem isMissing_run (kind : Kind) (first : Lexeme) (more : List Lexeme) :
    Draft.isMissing (Tree.token (.run kind first more)) = false := rfl

@[simp] theorem isMissing_single (kind : Kind) (l : Lexeme) :
    (single kind l).isMissing = false := rfl

@[simp] theorem isMissing_missing (kind : Kind) : (missing kind).isMissing = true := rfl

end Draft

/-! ## Rows -/

/-- What one slot is for. -/
structure SlotRule where
  kinds : List Kind
  mayBeEmpty : Bool
  mayBeMissing : Bool

namespace SlotRule

def one (kind : Kind) : SlotRule := ⟨[kind], false, true⟩

def maybe (kind : Kind) : SlotRule := ⟨[kind], true, false⟩

/-- Whether a slot may be left as it is. -/
def Allows (rule : SlotRule) : Option Draft → Prop
  | none => rule.mayBeEmpty = true
  | some d => d.kind ∈ rule.kinds ∧ (d.isMissing = true → rule.mayBeMissing = true)

end SlotRule

namespace Kind

open SlotRule

/-- What a value may be. -/
def values : SlotRule := ⟨[.propertyValue, .propertyValueWithBraces], false, true⟩

def comparisons : List Kind :=
  [.equals, .notEquals, .lessThan, .lessThanEquals, .greaterThan, .greaterThanEquals]

/-- The row of slots of each kind. -/
def layout : Kind → List SlotRule
  | .document => [maybe .list, one .eof]
  | .block => [one .leftBrace, maybe .list, one .rightBrace]
  | .ruleSet => [one .list, one .block]
  | .rule => [one .propertyName, one .colon, values, maybe .importantKeyword, one .semicolon]
  | .selector => [maybe .list]
  | .selectorPart => [one .list]
  | .selectorSubPart =>
    [⟨[.period, .hash], true, false⟩, ⟨[.identifier, .asterisk], false, true⟩,
      maybe .exclamationMark]
  | .pseudoClass => [one .colon, one .identifier]
  | .selectorWithParentheses => [one .leftParen, one .selector, one .rightParen]
  | .selectorWithNavigationExpression => [one .selector, maybe .navigationExpression]
  | .navigationExpression =>
    [one .pipe, one .propertyName, maybe .navigationExpressionIndexer, one .asKeyword,
      one .identifier]
  | .navigationExpressionIndexer => [one .leftBracket, one .number, one .rightBracket]
  | .propertyName => [⟨[.identifier], true, true⟩, maybe .period, one .identifier]
  | .eventName => [⟨[.identifier], true, true⟩, maybe .period, one .identifier]
  | .propertyValue => [one .propertyValueToken]
  | .propertyValueWithBraces => [one .leftBrace, one .propertyValueToken, one .rightBrace]
  | .propertyTrigger =>
    [one .triggerKeyword, one .propertyKeyword, maybe .list, maybe .importantKeyword, one .block]
  | .propertyTriggerEvaluation => [one .propertyName, ⟨comparisons, false, true⟩, values]
  | .eventTrigger =>
    [one .triggerKeyword, one .eventKeyword, one .eventName, maybe .eventTriggerArgumentList,
      maybe .importantKeyword, one .block]
  | .eventTriggerArgumentList => [one .leftParen, maybe .list, one .rightParen]
  | .playStoryboardTriggerAction =>
    [one .playStoryboardKeyword, maybe .selectorWithParentheses, values, maybe .semicolon]
  | .playSfxTriggerAction => [one .playSfxKeyword, values, maybe .semicolon]
  | .setTriggerAction =>
    [one .setKeyword, one .propertyName, maybe .selectorWithParentheses, values, maybe .semicolon]
  | .transition =>
    [one .transitionKeyword, one .transitionArgumentList, one .colon, values,
      maybe .importantKeyword, one .semicolon]
  | .transitionArgumentList => [one .leftParen, maybe .list, one .rightParen]
  | .storyboard => [one .atSign, one .identifier, maybe .identifier, one .block]
  | .storyboardTarget =>
    [one .targetKeyword, maybe .identifier, maybe .selectorWithParentheses, one .block]
  | .animation =>
    [one .animationKeyword, one .propertyName, maybe .navigationExpression, one .block]
  | .animationKeyframe =>
    [one .keyframeKeyword, one .number, maybe .identifier, one .propertyValueWithBraces]
  | _ => []

/-- A row has as many slots as nodes of its kind have. -/
theorem length_layout {kind : Kind} {count : Nat} (h : kind.slotCount? = some count) :
    kind.layout.length = count := by
  cases kind <;> simp_all [slotCount?, layout]

end Kind

/-- The slots hold what the row of the kind allows. -/
def Conforms (kind : Kind) (slots : List (Option Draft)) : Prop :=
  List.Forall₂ SlotRule.Allows kind.layout slots

theorem Conforms.length_eq {kind : Kind} {slots : List (Option Draft)} (h : Conforms kind slots)
    {count : Nat} (hc : kind.slotCount? = some count) : slots.length = count := by
  rw [← List.Forall₂.length_eq h, Kind.length_layout hc]

/-! ## Roles -/

/-- What is asked of what stands in a slot. -/
inductive SlotRole where
  | plain
  /-- An item of a whole style sheet: a trigger is out of place there. -/
  | item
  /-- An argument of an event: only two names are known. -/
  | argument
  /-- A loop behavior: only three words are known. -/
  | loopBehavior
  /-- A list that must not be empty. -/
  | needed
  /-- What is missing together with an opening brace, whose report is enough for all of it. -/
  | covered
  deriving DecidableEq, Repr

namespace SlotRole

/-- The role of the items of a list. -/
def inner : SlotRole → SlotRole
  | .needed => .plain
  | role => role

/-- The role that a node of a kind gives to what stands in one of its slots. Nodes in braces are
`bare` where the opening brace is missing. -/
def ofSlot (kind : Kind) (bare : Bool) (slot : Nat) : SlotRole :=
  match kind, slot with
  | .document, 0 => .item
  | .eventTriggerArgumentList, 1 => .argument
  | .storyboard, 2 => .loopBehavior
  | .selector, 0 => .needed
  | .propertyTrigger, 2 => .needed
  | .block, 2 => if bare then .covered else .plain
  | .propertyValueWithBraces, 1 => if bare then .covered else .plain
  | .propertyValueWithBraces, 2 => if bare then .covered else .plain
  | _, _ => .plain

/-- Slots with their roles, the first of them being slot `index`. -/
def assign (kind : Kind) (bare : Bool) (index : Nat) :
    List (Option Draft) → List (SlotRole × Option Draft)
  | [] => []
  | s :: rest => (ofSlot kind bare index, s) :: assign kind bare (index + 1) rest

end SlotRole

namespace Draft

/-- Whether the first slot holds a missing token. -/
def areBare : List (Option Draft) → Bool
  | some d :: _ => d.isMissing
  | _ => false

/-- The slots of a node of a kind, each with its role. -/
def withRoles (kind : Kind) (slots : List (Option Draft)) : List (SlotRole × Option Draft) :=
  SlotRole.assign kind (areBare slots) 0 slots

/-- A node whose first slot is filled from the text is not bare. -/
theorem withRoles_open {kind : Kind} {d : Draft} (h : d.isMissing = false)
    (rest : List (Option Draft)) :
    withRoles kind (some d :: rest) = SlotRole.assign kind false 0 (some d :: rest) := by
  rw [withRoles, areBare, h]

theorem map_snd_assign (kind : Kind) (bare : Bool) (index : Nat) (slots : List (Option Draft)) :
    (SlotRole.assign kind bare index slots).map Prod.snd = slots := by
  induction slots generalizing index with
  | nil => rfl
  | cons s rest ih => simp [SlotRole.assign, ih]

@[simp] theorem map_snd_withRoles (kind : Kind) (slots : List (Option Draft)) :
    (withRoles kind slots).map Prod.snd = slots := map_snd_assign ..

end Draft

end Stylesheet
