import Stylesheet.Text.Quoted
import Stylesheet.Tree.Traversal

/-!
# Listings of a tree

How elements are written: a node as its kind and full span, a token with its quoted text too, or
with a remark that it is missing. The listing of a tree has a line for each element in document
order, indented by its depth.
-/
namespace Stylesheet

namespace SyntaxTree

/-- A kind and a span. -/
def displayAt (kind : Kind) (span : Span) : String := s!"{kind.name}@{span.display}"

/-- The text of a span in quotes. -/
def quoted (tree : SyntaxTree) (span : Span) : String :=
  Quoted.string ((tree.slice? span).getD [])

/-- Mirrors `SyntaxNode::fmt` and `SyntaxToken::fmt`. -/
def display (tree : SyntaxTree) (p : Place) : String :=
  let head := displayAt p.kind p.fullSpan
  match p.element with
  | .node _ _ => head
  | .token (.missing _) => s!"{head} (missing)"
  | .token (.present ..) => s!"{head} {tree.quoted p.textSpan}"

/-- Mirrors `SyntaxTrivia::fmt`. -/
def displayTrivia (tree : SyntaxTree) (t : TriviaPlace) : String :=
  s!"{displayAt t.kind t.span} {tree.quoted t.span}"

/-- One event of a traversal. -/
def displayEvent (tree : SyntaxTree) : Event → String
  | .enter p => s!"enter {tree.display p}"
  | .token p => s!"token {tree.display p}"
  | .leave p => s!"leave {tree.display p}"

/-- One step of a walk. -/
def displayVisit (tree : SyntaxTree) : Visit → String
  | .trivia t => s!"trivia {tree.displayTrivia t}"
  | .element p => if p.isNode then s!"node {tree.display p}" else s!"token {tree.display p}"

/-- The lines for a list of events, `depth` nodes being open. -/
def listingOf (tree : SyntaxTree) : Nat → List Event → List String
  | _, [] => []
  | depth, .enter p :: rest => indented depth p :: tree.listingOf (depth + 1) rest
  | depth, .token p :: rest => indented depth p :: tree.listingOf depth rest
  | depth, .leave _ :: rest => tree.listingOf (depth - 1) rest
where
  indented (depth : Nat) (p : Place) : String :=
    String.ofList (List.replicate (2 * depth) ' ') ++ tree.display p

/-- The listing of a place and what is below it. Mirrors `SyntaxNode::debug_tree`. -/
def listing (tree : SyntaxTree) (p : Place) : List String := tree.listingOf 0 p.events

end SyntaxTree

/-- A slot below some place: how deep it lies, which slot of its node it is, and what stands in
it. -/
structure SlotRow where
  depth : Nat
  index : Nat
  place? : Option Place

mutual

def Tree.slotRows (depth : Nat) (path : List Nat) (position : Nat) :
    Tree Kind Token → List SlotRow
  | .token _ => []
  | .node _ slots => slots.slotRows depth path 0 position

def Slots.slotRows (depth : Nat) (path : List Nat) (index position : Nat) :
    Slots Kind Token → List SlotRow
  | .nil => []
  | .empty rest => ⟨depth, index, none⟩ :: rest.slotRows depth path (index + 1) position
  | .filled e rest =>
    ⟨depth, index, some ⟨path ++ [index], position, e⟩⟩
      :: (e.slotRows (depth + 1) (path ++ [index]) position
        ++ rest.slotRows depth path (index + 1) (position + e.fullWidth))

end

/-- Every slot below a place, each followed by those below what stands in it. -/
def Place.slotRows (p : Place) : List SlotRow := p.element.slotRows 0 p.path p.position

end Stylesheet
