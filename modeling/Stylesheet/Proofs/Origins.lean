import Stylesheet.Proofs.Checks

/-!
# Where nodes come from

Each kind of node but a list is made by one production, a block by one for each sort of body. Every
node of a parse is what the production of its kind makes where the node stands. So what is true of a
production at any cursor is true of all nodes of its kind.

Results:
* `Tree.EverywhereFrom`: a property of all nodes with the cursors in front of them.
* `Grown.append`, `Grown.list`, `Outcome.Grows.made`: rows of slots, lists and nodes.
* `Outcome.Puts.grows`: a slot for tokens.
-/
namespace Stylesheet

/-! ## Nodes with the cursors in front of them -/

mutual

/-- Whether each node of a draft has a property of the cursor in front of it, its kind and its slots,
the draft being read from a cursor on. -/
def Tree.EverywhereFrom (P : Cursor → Kind → Slots Kind Piece → Prop) (c : Cursor) :
    Tree Kind Piece → Prop
  | .token _ => True
  | .node kind slots => P c kind slots ∧ slots.EverywhereFrom P c

def Slots.EverywhereFrom (P : Cursor → Kind → Slots Kind Piece → Prop) (c : Cursor) :
    Slots Kind Piece → Prop
  | .nil => True
  | .empty rest => rest.EverywhereFrom P c
  | .filled d rest =>
    d.EverywhereFrom P c
      ∧ rest.EverywhereFrom P (c.advance (d.tokens.flatMap Piece.lexemes).length)

end

section EverywhereFrom

variable {P : Cursor → Kind → Slots Kind Piece → Prop} {Q : Kind → Slots Kind Piece → Prop}

theorem Slots.everywhereFrom_append {c : Cursor} (a b : List (Option Draft)) :
    (ofList (a ++ b)).EverywhereFrom P c
      ↔ (ofList a).EverywhereFrom P c
        ∧ (ofList b).EverywhereFrom P (c.advance (Draft.lexemesOf a).length) := by
  induction a generalizing c with
  | nil => simp [ofList, EverywhereFrom]
  | cons s rest ih =>
    cases s with
    | none => exact ih
    | some d =>
      simp only [List.cons_append, ofList, EverywhereFrom, ih, Draft.lexemesOf_some,
        List.length_append, Cursor.advance_advance, Draft.lexemes, and_assoc]

mutual

/-- What a node has wherever it stands it has here. -/
theorem Tree.EverywhereFrom.everywhere (h : ∀ c kind slots, P c kind slots → Q kind slots)
    {c : Cursor} {d : Tree Kind Piece} (hd : d.EverywhereFrom P c) : d.Everywhere Q := by
  match d with
  | .token p => trivial
  | .node kind slots => exact ⟨h c kind slots hd.1, Slots.EverywhereFrom.everywhere h hd.2⟩

theorem Slots.EverywhereFrom.everywhere (h : ∀ c kind slots, P c kind slots → Q kind slots)
    {c : Cursor} {s : Slots Kind Piece} (hs : s.EverywhereFrom P c) : s.Everywhere Q := by
  match s with
  | .nil => trivial
  | .empty rest => exact Slots.EverywhereFrom.everywhere (s := rest) h hs
  | .filled d rest =>
    exact ⟨Tree.EverywhereFrom.everywhere h hs.1, Slots.EverywhereFrom.everywhere h hs.2⟩

end

end EverywhereFrom

/-! ## What makes a node -/

namespace Production

/-- What the items of a block start with, and the production for them. -/
inductive Bodies : KindSet → Production Draft → Prop
  | ruleSet : Bodies nameStarts ruleSetItem
  | trigger : Bodies actionStarts action
  | storyboard : Bodies (KindSet.singleton .targetKeyword) target
  | target : Bodies (KindSet.singleton .animationKeyword) animation
  | animation : Bodies (KindSet.singleton .keyframeKeyword) keyframe

/-- The production that makes nodes of a kind. -/
inductive Makes : Kind → Production Draft → Prop
  | block {starts item} (h : Bodies starts item) : Makes .block (block starts item)
  | ruleSet : Makes .ruleSet ruleSet
  | rule : Makes .rule rule
  | selector : Makes .selector selector
  | selectorPart : Makes .selectorPart selectorPart
  | selectorSubPart : Makes .selectorSubPart subPart
  | pseudoClass : Makes .pseudoClass subPart
  | selectorWithParentheses : Makes .selectorWithParentheses parenthesizedSelector
  | selectorWithNavigationExpression :
      Makes .selectorWithNavigationExpression navigatedSelector
  | navigationExpression : Makes .navigationExpression navigation
  | navigationExpressionIndexer : Makes .navigationExpressionIndexer indexer
  | propertyName : Makes .propertyName (qualifiedName .propertyName)
  | eventName : Makes .eventName (qualifiedName .eventName)
  | propertyValue (context) : Makes .propertyValue (value context)
  | propertyValueWithBraces : Makes .propertyValueWithBraces bracedValue
  | propertyTrigger : Makes .propertyTrigger propertyTrigger
  | propertyTriggerEvaluation : Makes .propertyTriggerEvaluation evaluation
  | eventTrigger : Makes .eventTrigger eventTrigger
  | eventTriggerArgumentList : Makes .eventTriggerArgumentList eventArguments
  | playStoryboardTriggerAction : Makes .playStoryboardTriggerAction action
  | playSfxTriggerAction : Makes .playSfxTriggerAction action
  | setTriggerAction : Makes .setTriggerAction action
  | transition : Makes .transition transition
  | transitionArgumentList : Makes .transitionArgumentList transitionArguments
  | storyboard : Makes .storyboard storyboard
  | storyboardTarget : Makes .storyboardTarget target
  | animation : Makes .animation animation
  | animationKeyframe : Makes .animationKeyframe keyframe
  | blockError {starts item} (h : Bodies starts item) : Makes .error (unexpected starts)
  | documentError : Makes .error (unexpected itemStarts)

end Production

open Draft

/-- A node that the production of its kind makes at a cursor. Lists are made by what has them. -/
def Made (c : Cursor) (kind : Kind) (slots : Slots Kind Piece) : Prop :=
  kind = .list ∨ ∃ p, Production.Makes kind p ∧ (p c).value = .node kind slots

/-! ## Rows of slots -/

/-- Slots that were filled between two cursors, with nodes that were made where they stand. -/
structure Grown (c : Cursor) (slots : List (Option Draft)) (c' : Cursor) : Prop where
  passes : c.Passes (lexemesOf slots) c'
  nodes : (Slots.ofList slots).EverywhereFrom Made c

variable {c c₁ c₂ c' : Cursor} {slots a b : List (Option Draft)} {kind : Kind}

namespace Grown

theorem nil (c : Cursor) : Grown c [] c := ⟨.refl c, trivial⟩

theorem append (h₁ : Grown c a c₁) (h₂ : Grown c₁ b c₂) : Grown c (a ++ b) c₂ := by
  refine ⟨?_, (Slots.everywhereFrom_append a b).mpr ⟨h₁.nodes, ?_⟩⟩
  · rw [lexemesOf_append]
    exact h₁.passes.trans h₂.passes
  · rw [← h₁.passes.eq_advance]
    exact h₂.nodes

/-- One slot more, in front of a row. -/
theorem cons {slot : Option Draft} (h₁ : Grown c [slot] c₁) (h₂ : Grown c₁ slots c₂) :
    Grown c (slot :: slots) c₂ :=
  h₁.append h₂

theorem empty (c : Cursor) : Grown c [none] c := ⟨.refl c, trivial⟩

theorem token {p : Piece} (hp : c.Passes p.lexemes c') : Grown c [some (.token p)] c' :=
  ⟨by simpa [lexemes, Tree.tokens] using hp, trivial, trivial⟩

theorem node (hm : Made c kind (Slots.ofList slots)) (h : Grown c slots c') :
    Grown c [some (composite kind slots)] c' :=
  ⟨by simpa using h.passes, ⟨hm, h.nodes⟩, trivial⟩

/-- Items in their slot. -/
theorem list {items : List Draft} (h : Grown c (items.map some) c') :
    Grown c [Draft.list items] c' := by
  cases items with
  | nil =>
    obtain rfl := h.passes.stand
    exact .empty c'
  | cons d rest => exact h.node (.inl rfl)

theorem singles {ls : List Lexeme} (hp : c.Passes ls c') :
    Grown c (ls.map fun l => some (single l.kind l)) c' := by
  refine ⟨by rwa [lexemesOf_singles], ?_⟩
  clear hp
  induction ls generalizing c with
  | nil => trivial
  | cons l ls ih => exact ⟨trivial, ih⟩

end Grown

/-- What a production makes and reads is grown. -/
def Outcome.Grows {α : Type} (o : Outcome α) (c : Cursor) (slots : List (Option Draft)) : Prop :=
  Grown c slots o.rest

namespace Outcome

variable {α β : Type} {o : Outcome α} {o₂ : Outcome β} {slot : Option Draft}

namespace Grows

/-- No slot, and nothing read. -/
theorem done (v : α) (c : Cursor) : Outcome.Grows ⟨v, c, [], []⟩ c [] := .nil c

/-- One slot more, in front of a row. -/
theorem cons (h₁ : o.Grows c [slot]) (h₂ : o₂.Grows o.rest slots) {v : β} :
    Outcome.Grows ⟨v, o₂.rest, o.reports ++ o₂.reports, o.faults ++ o₂.faults⟩ c
      (slot :: slots) :=
  Grown.cons h₁ h₂

/-- A slot that stays empty in front of a row. -/
theorem skip (h : o.Grows c slots) : o.Grows c (none :: slots) := Grown.cons (.empty c) h

/-- A look reads nothing. -/
theorem seen {view : Cursor → α} {f : α → Production β} (h : (f (view c) c).Grows c slots) :
    ((Production.look view >>= f) c).Grows c slots :=
  h

/-- A node of a row, made by the production of its kind. -/
theorem made {p : Production Draft} (hp : Production.Makes kind p)
    (hv : (p c).value = composite kind slots) (h : (p c).Grows c slots) :
    (p c).Grows c [some (p c).value] := by
  rw [hv]
  exact Grown.node (.inr ⟨p, hp, hv⟩) h

end Grows

/-- What is filled with a token, or left empty, is grown. -/
theorem Puts.grows {role : SlotRole} {rule : SlotRule} (h : o.Puts c role slot rule)
    (hk : ∀ k ∈ rule.kinds, k.isToken) : o.Grows c [slot] := by
  have hpasses : c.Passes (lexemesOf [slot]) o.rest := h.reading.passes
  match slot with
  | none => exact ⟨hpasses, trivial⟩
  | some (.token p) => exact ⟨hpasses, trivial, trivial⟩
  | some (.node kind slots) =>
    -- A reading makes nodes of composite kinds only.
    have hcomposite : kind.isComposite :=
      (h.reading.everywhere (P := fun kind _ => kind.isComposite) (fun _ _ hk _ _ => hk)
        (fun _ _ => rfl) (fun _ _ => rfl)).1.1
    rw [Kind.isComposite_of_isToken (hk kind h.allowed.1)] at hcomposite
    cases hcomposite

end Outcome

end Stylesheet
