import Stylesheet.Tree.Builder
import Stylesheet.Tree.Place

/-!
# Finished trees

`Builder.finish` looks at the elements that were made, lays the tree below a root over a text, and
freezes the tables. A stack holds what is still to be placed; a node puts what it holds there, so
that tokens come up in document order.

What is stored says the same thing more than once: who holds an element is told by the slots and by
the element, and the order of the tokens by the slots, by the list of tokens and by each token.
Every step from one element to another reads one of them.

* `Builder.finish`: the finished tree.
* `Arena.nextToken?`, `Arena.prevToken?`, `Builder.parent?`, `Arena.slot`, `Arena.firstToken?`: the
  steps.
* `Arena.tree`: what the slots tell, as a tree over the text.
-/
namespace Stylesheet

/-- A finished tree. Mirrors `SyntaxTree`. -/
structure Arena extends Builder where
  text : Text
  /-- The numbers of the tokens, in document order. -/
  documentOrder : Array Nat
  root : Nat

namespace Arena

/-! ## Placing -/

/-- Notes where a token stands and that it comes next in document order. -/
def putToken (a : Arena) (number position : Nat) : Except BuildError Arena := do
  let some data := a.tokens[number]? | throw (.noSuchElement (.token number))
  let order ← fitting a.documentOrder.size .tooManyTokens
  let start ← checkedAdd position data.token.leadingWidth
  let stop ← checkedAdd start data.token.width
  if !(a.text.isBoundary start && a.text.isBoundary stop) then throw (.splitCharacter number)
  return { a with
    tokens := a.tokens.modify number fun data => { data with position := position, order := order }
    documentOrder := a.documentOrder.push number }

/-- Notes where a node stands. -/
def putNode (a : Arena) (number position : Nat) : Arena :=
  { a with nodes := a.nodes.modify number fun data => { data with position := position } }

/-- What stands in some slots, each element where the one before it ends. -/
def laidOut (a : Arena) (offset : Nat) :
    List (Option ElementId) → Except BuildError (List (ElementId × Nat))
  | [] => .ok []
  | none :: rest => a.laidOut offset rest
  | some id :: rest => do
    let behind ← checkedAdd offset (← a.checkedWidth id)
    return (id, offset) :: (← a.laidOut behind rest)

/-- Places what is on a stack, and what is below it. No more elements can come up than there are, so
their number bounds the steps. Mirrors the loop of `Builder::finish`. -/
def place (a : Arena) : Nat → List (ElementId × Nat) → Except BuildError Arena
  | _, [] => .ok a
  | 0, _ :: _ => .error .endless
  | steps + 1, (.token number, position) :: stack => do
    (← a.putToken number position).place steps stack
  | steps + 1, (.node number, position) :: stack => do
    if !a.made (.node number) then throw (.noSuchElement (.node number))
    let children ← a.laidOut position (a.slotsOf number)
    (a.putNode number position).place steps (children ++ stack)

end Arena

namespace Builder

/-- The first token that no node holds. -/
def detachedToken? (b : Builder) : Option Nat := b.tokens.toList.findIdx? (·.parent.isNone)

/-- The first node but the root that no node holds. -/
def detachedNode? (b : Builder) (root : Nat) : Option Nat :=
  (List.range b.nodes.size).find? fun number =>
    number ≠ root && (b.parent? (.node number)).isNone

/-- The tree under a root, laid over a text. Mirrors `Builder::finish`. -/
def finish (b : Builder) (text : Text) (root : Nat) : Except BuildError Arena := do
  let some data := b.nodes[root]? | throw (.noSuchElement (.node root))
  if data.parent.isSome then throw .rootHasParent
  if let some number := b.detachedToken? then throw (.detachedToken number)
  if let some number := b.detachedNode? root then throw (.detachedNode number)
  let length ← fitting (Text.width text) .textTooLong
  if data.fullWidth ≠ length then throw (.spanMismatch data.fullWidth length)
  let a : Arena := { b with text := text, documentOrder := #[], root := root }
  a.place (b.tokens.size + b.nodes.size) [(.node root, 0)]

end Builder

/-! ## The tree that the slots tell -/

mutual

/-- The first token below an element. -/
def Tree.firstNumber? : Numbered → Option Nat
  | .token (number, _) => some number
  | .node _ slots => slots.firstNumber?

def Slots.firstNumber? : NumberedSlots → Option Nat
  | .nil => none
  | .empty rest => rest.firstNumber?
  | .filled e rest =>
    match e.firstNumber? with
    | some number => some number
    | none => rest.firstNumber?

end

mutual

/-- The last token below an element. -/
def Tree.lastNumber? : Numbered → Option Nat
  | .token (number, _) => some number
  | .node _ slots => slots.lastNumber?

def Slots.lastNumber? : NumberedSlots → Option Nat
  | .nil => none
  | .empty rest => rest.lastNumber?
  | .filled e rest =>
    match rest.lastNumber? with
    | some number => some number
    | none => e.lastNumber?

end

mutual

/-- An element and those below it, each node in front of what it holds. -/
def Tree.ids : Numbered → List ElementId
  | .token (number, _) => [.token number]
  | .node (number, _) slots => .node number :: slots.allIds

def Slots.allIds : NumberedSlots → List ElementId
  | .nil => []
  | .empty rest => rest.allIds
  | .filled e rest => e.ids ++ rest.allIds

end

/-- A tree without the numbers of its elements. -/
def Tree.unnumbered (e : Numbered) : Element := e.map Prod.snd Prod.snd

/-- An element and those below it, in the order in which a walk through the slots comes to them. -/
def Builder.below (b : Builder) (id : ElementId) : List ElementId :=
  ((b.element? id).map Tree.ids).getD []

namespace Arena

/-- What the slots tell, as a tree over the text. -/
def tree (a : Arena) : SyntaxTree :=
  match a.element? (.node a.root) with
  | some (.node (_, kind) slots) => ⟨a.text, kind, slots.map Prod.snd Prod.snd⟩
  | _ => ⟨a.text, .document, .nil⟩

/-- The elements in the order in which a walk from the root comes to them. -/
def walk (a : Arena) : List ElementId := a.below (.node a.root)

/-- A tree in one line: the bytes of its text, and how many nodes and tokens it has. Mirrors
`SyntaxTree::fmt`. -/
def summary (a : Arena) : String :=
  s!"SyntaxTree \x7b text_len: {Text.width a.text}, nodes: {a.nodes.size}, "
    ++ s!"tokens: {a.tokens.size}, .. \x7d"

/-! ## What is stored -/

/-- Where an element starts, trivia included. -/
def position? (a : Arena) : ElementId → Option Nat
  | .token number => (a.tokens[number]?).map (·.position)
  | .node number => (a.nodes[number]?).map (·.position)

/-- The bytes of an element, trivia included. -/
def fullWidth? (a : Arena) : ElementId → Option Nat
  | .token number => (a.tokens[number]?).map (·.token.fullWidth)
  | .node number => (a.nodes[number]?).map (·.fullWidth)

/-- A token's index in document order. -/
def order? (a : Arena) (token : Nat) : Option Nat := (a.tokens[token]?).map (·.order)

/-! ## Steps -/

/-- The tokens in document order. Mirrors `SyntaxTree::tokens`. -/
def tokenList (a : Arena) : List Nat := a.documentOrder.toList

/-- The token right behind a token. Mirrors `SyntaxToken::next_token`. -/
def nextToken? (a : Arena) (token : Nat) : Option Nat := do
  let order ← a.order? token
  a.documentOrder[order + 1]?

/-- The token right in front of a token. Mirrors `SyntaxToken::prev_token`. -/
def prevToken? (a : Arena) (token : Nat) : Option Nat := do
  let order ← a.order? token
  if order = 0 then none else a.documentOrder[order - 1]?

/-- What stands in a slot; a slot that there is may be empty. Mirrors `SyntaxNode::slot`. -/
def slot (a : Arena) (id : ElementId) (index : Nat) : Except SlotError (Option ElementId) :=
  let kind := (a.kind? id).getD .eof
  match id with
  | .token _ => .error (.ofToken index kind)
  | .node number =>
    match (a.slotsOf number)[index]? with
    | some slot => .ok slot
    | none => .error (.outOfRange index kind (a.slotsOf number).length)

/-- What stands in a slot, if anything does. -/
def child? (a : Arena) (id : ElementId) (index : Nat) : Option ElementId :=
  (a.slot id index).toOption.join

/-- The element that a path of slots leads to from the root. -/
def at? (a : Arena) (path : List Nat) : Option ElementId := path.foldlM a.child? (.node a.root)

/-- An element at the end of a path, where it is stored to stand. -/
def place? (a : Arena) (path : List Nat) (id : ElementId) : Option Place := do
  let position ← a.position? id
  let element ← a.element? id
  return ⟨path, position, element.unnumbered⟩

/-- What stands in the filled slots of a node. Mirrors `SyntaxNode::children`. -/
def children (a : Arena) (node : Nat) : List ElementId := (a.slotsOf node).filterMap id

/-- Mirrors `SyntaxNode::first_token`. -/
def firstToken? (a : Arena) (node : Nat) : Option Nat :=
  (a.element? (.node node)).bind Tree.firstNumber?

/-- Mirrors `SyntaxNode::last_token`. -/
def lastToken? (a : Arena) (node : Nat) : Option Nat :=
  (a.element? (.node node)).bind Tree.lastNumber?

/-- The tokens below a node. Mirrors `SyntaxNode::descendant_tokens`. -/
def descendantTokens (a : Arena) (node : Nat) : List Nat :=
  ((a.element? (.node node)).map fun e => e.tokens.map Prod.fst).getD []

/-- The nodes from one on upwards. A node is held by a younger one, so their number bounds the
steps. -/
def ancestorsFrom (a : Arena) : Nat → Option Nat → List Nat
  | _, none => []
  | 0, some _ => []
  | steps + 1, some node => node :: a.ancestorsFrom steps (a.parent? (.node node))

/-- The nodes that an element lies in, innermost first. A node lies in itself. Mirrors
`SyntaxNode::ancestors`. -/
def ancestors (a : Arena) (id : ElementId) : List Nat :=
  match id with
  | .node number => a.ancestorsFrom a.nodes.size (some number)
  | .token _ => a.ancestorsFrom a.nodes.size (a.parent? id)

end Arena

end Stylesheet
