/-!
# Trees with slots

A node has slots in a fixed order. A slot holds a tree or is empty, and an empty slot keeps its
place: what stands in slot `i` has one meaning for each label. Nodes carry labels of type `β`,
leaves (tokens) labels of type `α`.

* `Tree.tokens`, `Tree.nodes`: the labels in document order, a node before what is below it.
* `Tree.map`: the same tree with other labels.
-/
namespace Stylesheet

mutual

inductive Tree (β α : Type) where
  | token (label : α)
  | node (label : β) (slots : Slots β α)

/-- The slots of a node, first to last. -/
inductive Slots (β α : Type) where
  | nil
  | empty (rest : Slots β α)
  | filled (first : Tree β α) (rest : Slots β α)

end

instance {β α : Type} : Inhabited (Slots β α) := ⟨.nil⟩

variable {β α γ δ : Type}

namespace Slots

def ofList : List (Option (Tree β α)) → Slots β α
  | [] => .nil
  | none :: rest => .empty (ofList rest)
  | some t :: rest => .filled t (ofList rest)

def toList : Slots β α → List (Option (Tree β α))
  | .nil => []
  | .empty rest => none :: rest.toList
  | .filled t rest => some t :: rest.toList

/-- The number of slots, empty ones included. -/
def length : Slots β α → Nat
  | .nil => 0
  | .empty rest => rest.length + 1
  | .filled _ rest => rest.length + 1

@[simp] theorem toList_ofList (ts : List (Option (Tree β α))) : (ofList ts).toList = ts := by
  induction ts with
  | nil => rfl
  | cons t ts ih => cases t <;> simp [ofList, toList, ih]

@[simp] theorem ofList_toList (s : Slots β α) : ofList s.toList = s := by
  match s with
  | .nil => rfl
  | .empty rest => simp [toList, ofList, ofList_toList rest]
  | .filled _ rest => simp [toList, ofList, ofList_toList rest]

@[simp] theorem length_toList (s : Slots β α) : s.toList.length = s.length := by
  match s with
  | .nil => rfl
  | .empty rest => simp [toList, length, length_toList rest]
  | .filled _ rest => simp [toList, length, length_toList rest]

end Slots

mutual

/-- The labels of the tokens of a tree, in document order. -/
def Tree.tokens : Tree β α → List α
  | .token a => [a]
  | .node _ slots => slots.tokens

def Slots.tokens : Slots β α → List α
  | .nil => []
  | .empty rest => rest.tokens
  | .filled t rest => t.tokens ++ rest.tokens

end

mutual

/-- The labels of the nodes of a tree, each before those below it. -/
def Tree.nodes : Tree β α → List β
  | .token _ => []
  | .node b slots => b :: slots.nodes

def Slots.nodes : Slots β α → List β
  | .nil => []
  | .empty rest => rest.nodes
  | .filled t rest => t.nodes ++ rest.nodes

end

mutual

def Tree.map (f : β → γ) (g : α → δ) : Tree β α → Tree γ δ
  | .token a => .token (g a)
  | .node b slots => .node (f b) (slots.map f g)

def Slots.map (f : β → γ) (g : α → δ) : Slots β α → Slots γ δ
  | .nil => .nil
  | .empty rest => .empty (rest.map f g)
  | .filled t rest => .filled (t.map f g) (rest.map f g)

end

mutual

theorem Tree.tokens_map (f : β → γ) (g : α → δ) (t : Tree β α) :
    (t.map f g).tokens = t.tokens.map g := by
  match t with
  | .token _ => rfl
  | .node _ slots => simp [Tree.map, Tree.tokens, Slots.tokens_map f g slots]

theorem Slots.tokens_map (f : β → γ) (g : α → δ) (s : Slots β α) :
    (s.map f g).tokens = s.tokens.map g := by
  match s with
  | .nil => rfl
  | .empty rest => simp [Slots.map, Slots.tokens, Slots.tokens_map f g rest]
  | .filled t rest =>
    simp [Slots.map, Slots.tokens, Tree.tokens_map f g t, Slots.tokens_map f g rest]

end

/-- Whether a tree is a node, and not a token. -/
def Tree.isNode : Tree β α → Bool
  | .token _ => false
  | .node _ _ => true

end Stylesheet
