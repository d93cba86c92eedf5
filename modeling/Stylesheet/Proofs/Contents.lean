import Stylesheet.Proofs.Everywhere
import Stylesheet.Proofs.Layout
import Stylesheet.Proofs.Places

/-!
# What stands below a slot

The row of a kind says of which kinds the elements in its slots are. Some slots ask for more: a list
is a list of certain items, with commas between them or without, and a block holds what fits the
node that has it for its body. `Kind.contents` is the table of this.

Results:
* `Keeps`: a node keeps to a table of rows and to a table of contents.
* `SyntaxTree.keeps_at`: what is kept everywhere in a tree is kept at each of its places.
-/
namespace Stylesheet

/-- What a slot asks of the slots of the element in it. -/
inductive Contents where
  | any
  /-- A list of present elements of these kinds. -/
  | items (kinds : List Kind)
  /-- A list of such elements with commas between them. -/
  | separated (kinds : List Kind)
  /-- A block of elements of these kinds and of errors. -/
  | body (kinds : List Kind)
  /-- A node whose only slot is filled. -/
  | filled

/-- A present element of one of the kinds. -/
def Element.IsItem (kinds : List Kind) (e : Element) : Prop :=
  e.kind ∈ kinds ∧ e.isMissing = false

/-- Slots filled with present elements of the kinds. -/
def AreItems (kinds : List Kind) (slots : List (Option Element)) : Prop :=
  ∀ s ∈ slots, ∃ e, s = some e ∧ Element.IsItem kinds e

/-- Items and commas in turn, an item first. A comma may be missing between two items. -/
inductive Alternate (kinds : List Kind) : List (Option Element) → Prop
  | last {e} (he : Element.IsItem kinds e) : Alternate kinds [some e]
  | trailing {e comma} (he : Element.IsItem kinds e) (hc : Element.IsItem [.comma] comma) :
      Alternate kinds [some e, some comma]
  | next {e comma rest} (he : Element.IsItem kinds e) (hc : comma.kind = .comma)
      (hr : Alternate kinds rest) : Alternate kinds (some e :: some comma :: rest)

def Contents.Of : Contents → Element → Prop
  | .any, _ => True
  | .items kinds, e => AreItems kinds e.slots.toList
  | .separated kinds, e => Alternate kinds e.slots.toList
  | .body kinds, e =>
    ∀ list, e.slots.toList[1]? = some (some list) → AreItems (.error :: kinds) list.slots.toList
  | .filled, e => ∃ inner, e.slots.toList = [some inner]

namespace Kind

def names : List Kind := .identifier :: keywords.map Prod.snd

def combinators : List Kind := [.greaterThan, .greaterThanGreaterThan, .greaterThanQuestionMark]

def ruleSetItems : List Kind := [.rule, .transition, .propertyTrigger, .eventTrigger]

def actions : List Kind :=
  [.playStoryboardTriggerAction, .playSfxTriggerAction, .setTriggerAction]

def sheetItems : List Kind := [.ruleSet, .storyboard, .propertyTrigger, .eventTrigger, .error]

/-- What the slots of each kind ask for, apart from the kinds of the elements in them. -/
def contents : Kind → Nat → Contents
  | .document, 0 => .items sheetItems
  | .ruleSet, 0 => .separated [.selectorWithNavigationExpression]
  | .ruleSet, 1 => .body ruleSetItems
  | .selectorWithNavigationExpression, 0 => .filled
  | .selector, 0 => .items (.selectorPart :: combinators)
  | .selectorPart, 0 => .items [.selectorSubPart, .pseudoClass]
  | .transitionArgumentList, 1 => .separated [.identifier]
  | .eventTriggerArgumentList, 1 => .separated names
  | .propertyTrigger, 2 => .separated [.propertyTriggerEvaluation]
  | .propertyTrigger, 4 => .body actions
  | .eventTrigger, 5 => .body actions
  | .storyboard, 3 => .body [.storyboardTarget]
  | .storyboardTarget, 3 => .body [.animation]
  | .animation, 3 => .body [.animationKeyframe]
  | _, _ => .any

/-- Kinds whose first two slots are for an owner and the period behind it. -/
def hasOwner (kind : Kind) : Bool := kind = .propertyName || kind = .eventName

end Kind

/-! ## Nodes -/

/-- Whether a slot may be left as it is. -/
def SlotRule.Takes (rule : SlotRule) : Option Element → Prop
  | none => rule.mayBeEmpty = true
  | some e => e.kind ∈ rule.kinds ∧ (e.isMissing = true → rule.mayBeMissing = true)

/-- The first two slots are both filled or both empty. -/
def OwnerWithPeriod : List (Option Element) → Prop
  | owner :: period :: _ => owner.isSome = period.isSome
  | _ => False

/-- A node keeps to a table of rows and to a table of contents. -/
structure Keeps (rows : Kind → List SlotRule) (contents : Kind → Nat → Contents) (kind : Kind)
    (slots : Slots Kind Token) : Prop where
  composite : kind.isComposite
  row : kind ≠ .list → kind ≠ .error → List.Forall₂ SlotRule.Takes (rows kind) slots.toList
  contents : ∀ i e, slots.toList[i]? = some (some e) → (contents kind i).Of e
  owner : kind.hasOwner → OwnerWithPeriod slots.toList
  list : kind = .list → slots.toList ≠ []
  error : kind = .error → slots.toList ≠ [] ∧
    ∀ s ∈ slots.toList, ∃ t, s = some (.token t) ∧ t.isPresent

/-- What stands in a slot is what the rule of the slot takes. -/
theorem Keeps.takes {rows : Kind → List SlotRule} {contents : Kind → Nat → Contents} {kind : Kind}
    {slots : Slots Kind Token} (h : Keeps rows contents kind slots) (hl : kind ≠ .list) (he : kind ≠ .error) {i : Nat}
    {s : Option Element} (hs : slots.toList[i]? = some s) :
    ∃ rule, (rows kind)[i]? = some rule ∧ rule.Takes s := by
  have hrow := h.row hl he
  obtain ⟨hi, rfl⟩ := List.getElem?_eq_some_iff.mp hs
  have hi' : i < (rows kind).length := hrow.length_eq ▸ hi
  exact ⟨(rows kind)[i], List.getElem?_eq_getElem hi', hrow.get hi' hi⟩

/-! ## Everywhere in a tree -/

section Everywhere

variable {β α : Type} {P Q : β → Slots β α → Prop}

mutual

theorem Tree.Everywhere.and {t : Tree β α} (hp : t.Everywhere P) (hq : t.Everywhere Q) :
    t.Everywhere fun b s => P b s ∧ Q b s := by
  match t with
  | .token _ => trivial
  | .node b s => exact ⟨⟨hp.1, hq.1⟩, Slots.Everywhere.and hp.2 hq.2⟩

theorem Slots.Everywhere.and {s : Slots β α} (hp : s.Everywhere P) (hq : s.Everywhere Q) :
    s.Everywhere fun b s => P b s ∧ Q b s := by
  match s with
  | .nil => trivial
  | .empty rest => exact Slots.Everywhere.and (s := rest) hp hq
  | .filled t rest => exact ⟨Tree.Everywhere.and hp.1 hq.1, Slots.Everywhere.and hp.2 hq.2⟩

end

theorem Slots.Everywhere.of_mem {s : Slots β α} (h : s.Everywhere P) {t : Tree β α}
    (ht : some t ∈ s.toList) : t.Everywhere P := by
  match s with
  | .nil => simp [Slots.toList] at ht
  | .empty rest =>
    rw [Slots.toList, List.mem_cons] at ht
    exact Slots.Everywhere.of_mem (s := rest) h (ht.resolve_left (by simp))
  | .filled e rest =>
    rw [Slots.toList, List.mem_cons] at ht
    rcases ht with ht | ht
    · cases ht
      exact h.1
    · exact Slots.Everywhere.of_mem (s := rest) h.2 ht

mutual

/-- What a node has by itself and by what is below it, all nodes have. -/
theorem Tree.Everywhere.deepen (h : ∀ b s, P b s → s.Everywhere P → Q b s) {t : Tree β α}
    (ht : t.Everywhere P) : t.Everywhere Q := by
  match t with
  | .token _ => trivial
  | .node b s => exact ⟨h b s ht.1 ht.2, Slots.Everywhere.deepen h ht.2⟩

theorem Slots.Everywhere.deepen (h : ∀ b s, P b s → s.Everywhere P → Q b s) {s : Slots β α}
    (hs : s.Everywhere P) : s.Everywhere Q := by
  match s with
  | .nil => trivial
  | .empty rest => exact Slots.Everywhere.deepen (s := rest) h hs
  | .filled t rest => exact ⟨Tree.Everywhere.deepen h hs.1, Slots.Everywhere.deepen h hs.2⟩

end

end Everywhere

theorem Slots.tokens_subset {β α : Type} {t : Tree β α} {s : Slots β α} (h : some t ∈ s.toList) :
    t.tokens ⊆ s.tokens := by
  cases s with
  | nil => cases h
  | empty rest =>
    rw [toList, List.mem_cons] at h
    exact rest.tokens_subset (h.resolve_left (by simp))
  | filled e rest =>
    rw [toList, List.mem_cons] at h
    rw [tokens]
    rcases h with h | h
    · cases h
      exact List.subset_append_left _ _
    · exact List.Subset.trans (rest.tokens_subset h) (List.subset_append_right _ _)

/-- The elements at the places of slots are those in the slots. -/
theorem Slots.map_element_places (s : Slots Kind Token) (path : List Nat) (index position : Nat) :
    (s.places path index position).map (Option.map Place.element) = s.toList := by
  cases s with
  | nil => rfl
  | empty rest =>
    rw [places, List.map_cons, rest.map_element_places path (index + 1) position]
    rfl
  | filled e rest =>
    rw [places, List.map_cons, rest.map_element_places path (index + 1) (position + e.fullWidth)]
    rfl

namespace Place

variable {P : Kind → Slots Kind Token → Prop} {p q : Place} {i : Nat}

/-- The element of a place below is the one in the slot. -/
theorem getElem?_toList (h : p.child? i = some q) :
    p.element.slots.toList[i]? = some (some q.element) := by
  rw [← Slots.map_element_places p.element.slots p.path 0 p.position, List.getElem?_map,
    ← Place.slots, SyntaxTree.getElem?_of_child? h]
  rfl

theorem element_mem_toList (hq : some q ∈ p.slots) :
    some q.element ∈ p.element.slots.toList := by
  rw [← Slots.map_element_places p.element.slots p.path 0 p.position]
  exact List.mem_map_of_mem hq

theorem everywhere_of_slot (h : p.element.Everywhere P) (hq : some q ∈ p.slots) :
    q.element.Everywhere P := by
  have hslot := element_mem_toList hq
  cases hp : p.element with
  | token t => simp [hp, Tree.slots, Slots.toList] at hslot
  | node kind slots =>
    rw [hp] at h hslot
    exact h.2.of_mem hslot

end Place

namespace SyntaxTree

variable {tree : SyntaxTree} {P : Kind → Slots Kind Token → Prop} {p : Place} {path : List Nat}

theorem everywhere_at? (h : tree.root.element.Everywhere P) (hp : tree.at? path = some p) :
    p.element.Everywhere P := by
  induction path using List.reverseRecOn generalizing p with
  | nil =>
    cases hp
    exact h
  | append_singleton path i ih =>
    rw [at?_concat, Option.bind_eq_some_iff] at hp
    obtain ⟨q, hq, hchild⟩ := hp
    exact Place.everywhere_of_slot (ih hq) (List.mem_of_getElem? (getElem?_of_child? hchild))

/-- What is kept everywhere in a tree is kept by the node at a path. -/
theorem keeps_at (h : tree.root.element.Everywhere P) (hp : tree.at? path = some p)
    (hn : p.isNode) : P p.kind p.element.slots := by
  have hbelow := everywhere_at? h hp
  obtain ⟨_, _, e⟩ := p
  cases e with
  | token t => simp [Place.isNode, Tree.isNode] at hn
  | node kind slots => exact hbelow.1

end SyntaxTree

end Stylesheet
