import Stylesheet.Text.Span
import Stylesheet.Tree.Element

/-!
# Places in a tree

A place is an element of a tree together with where it stands: the slots that lead to it from the
root, and the offset at which it starts, trivia included.

* `Place.textSpan`: from the text of the first present token to that of the last one. Missing
  tokens have no say in where an element's text starts or ends.
* `SyntaxTree.at?`: the place at the end of a path of slots.
* `SyntaxTree.tokens`: the tokens in document order, missing ones included.
-/
namespace Stylesheet

/-- Mirrors `SyntaxElement`. -/
structure Place where
  /-- The slots that lead here, from the root. -/
  path : List Nat
  position : Nat
  element : Element

/-! ## Places below an element -/

/-- What stands in each of the slots of a node at `path`, the first of them being slot `index` and
starting at `position`. -/
def Slots.places (path : List Nat) (index position : Nat) :
    Slots Kind Token → List (Option Place)
  | .nil => []
  | .empty rest => none :: rest.places path (index + 1) position
  | .filled e rest =>
    some ⟨path ++ [index], position, e⟩ :: rest.places path (index + 1) (position + e.fullWidth)

mutual

/-- The tokens of an element in document order. -/
def Tree.tokenPlaces (path : List Nat) (position : Nat) : Tree Kind Token → List Place
  | .token t => [⟨path, position, .token t⟩]
  | .node _ slots => slots.tokenPlaces path 0 position

def Slots.tokenPlaces (path : List Nat) (index position : Nat) : Slots Kind Token → List Place
  | .nil => []
  | .empty rest => rest.tokenPlaces path (index + 1) position
  | .filled e rest =>
    e.tokenPlaces (path ++ [index]) position
      ++ rest.tokenPlaces path (index + 1) (position + e.fullWidth)

end

mutual

/-- The first token that passes a test. -/
def Tree.first? (test : Token → Bool) (path : List Nat) (position : Nat) :
    Tree Kind Token → Option Place
  | .token t => if test t then some ⟨path, position, .token t⟩ else none
  | .node _ slots => slots.first? test path 0 position

def Slots.first? (test : Token → Bool) (path : List Nat) (index position : Nat) :
    Slots Kind Token → Option Place
  | .nil => none
  | .empty rest => rest.first? test path (index + 1) position
  | .filled e rest =>
    match e.first? test (path ++ [index]) position with
    | some p => some p
    | none => rest.first? test path (index + 1) (position + e.fullWidth)

end

mutual

/-- The last token that passes a test. -/
def Tree.last? (test : Token → Bool) (path : List Nat) (position : Nat) :
    Tree Kind Token → Option Place
  | .token t => if test t then some ⟨path, position, .token t⟩ else none
  | .node _ slots => slots.last? test path 0 position

def Slots.last? (test : Token → Bool) (path : List Nat) (index position : Nat) :
    Slots Kind Token → Option Place
  | .nil => none
  | .empty rest => rest.last? test path (index + 1) position
  | .filled e rest =>
    match rest.last? test path (index + 1) (position + e.fullWidth) with
    | some p => some p
    | none => e.last? test (path ++ [index]) position

end

namespace Place

/-- Mirrors `SyntaxElement::kind`. -/
def kind (p : Place) : Kind := p.element.kind

def isNode (p : Place) : Bool := p.element.isNode

/-- Mirrors `SyntaxElement::is_missing`. -/
def isMissing (p : Place) : Bool := p.element.isMissing

/-- Mirrors `SyntaxElement::full_width`. -/
def fullWidth (p : Place) : Nat := p.element.fullWidth

/-- What stands in each slot of a place. Mirrors `SyntaxNode::slots`. -/
def slots (p : Place) : List (Option Place) := p.element.slots.places p.path 0 p.position

/-- Mirrors `SyntaxElement::slot_count`. -/
def slotCount (p : Place) : Nat := p.element.slots.length

/-- What stands in the filled slots of a place. Mirrors `SyntaxNode::children`. -/
def children (p : Place) : List Place := p.slots.filterMap id

/-- Mirrors `SyntaxNode::child_nodes`. -/
def childNodes (p : Place) : List Place := p.children.filter (·.isNode)

/-- The token at a place, if there is one. -/
def token? (p : Place) : Option Token :=
  match p.element with
  | .token t => some t
  | .node _ _ => none

def first? (p : Place) (test : Token → Bool) : Option Place :=
  p.element.first? test p.path p.position

def last? (p : Place) (test : Token → Bool) : Option Place :=
  p.element.last? test p.path p.position

/-- The first token at or below a place, missing ones included. Mirrors
`SyntaxNode::first_token`. -/
def firstToken? (p : Place) : Option Place := p.first? fun _ => true

/-- Mirrors `SyntaxNode::last_token`. -/
def lastToken? (p : Place) : Option Place := p.last? fun _ => true

/-- Mirrors `SyntaxNode::first_present_token`. -/
def firstPresent? (p : Place) : Option Place := p.first? Token.isPresent

/-- Mirrors `SyntaxNode::last_present_token`. -/
def lastPresent? (p : Place) : Option Place := p.last? Token.isPresent

/-! ## Widths and spans -/

/-- The bytes of the trivia in front of a place's text. Mirrors
`SyntaxElement::leading_trivia_width`. -/
def leadingWidth (p : Place) : Nat :=
  match p.element with
  | .token t => t.leadingWidth
  | .node _ _ => ((p.firstPresent?.bind token?).map Token.leadingWidth).getD 0

/-- The bytes of the trivia behind a place's text. Mirrors
`SyntaxElement::trailing_trivia_width`. -/
def trailingWidth (p : Place) : Nat :=
  match p.element with
  | .token t => t.trailingWidth
  | .node _ _ => ((p.lastPresent?.bind token?).map Token.trailingWidth).getD 0

/-- The span of a place with all its trivia. Mirrors `SyntaxElement::full_text_range`. -/
def fullSpan (p : Place) : Span := Span.ofWidth p.position p.fullWidth

/-- The span of a place without the trivia at its ends. Mirrors `SyntaxElement::text_range`. -/
def textSpan (p : Place) : Span :=
  match p.element with
  | .token t => Span.ofWidth (p.position + t.leadingWidth) t.width
  | .node _ _ =>
    let start := p.position + p.leadingWidth
    ⟨start, max start (p.position + p.fullWidth - p.trailingWidth), by omega⟩

/-- The bytes of a place without the trivia at its ends. Mirrors `SyntaxElement::width`. -/
def width (p : Place) : Nat := p.textSpan.width

end Place

/-! ## Trivia -/

/-- A piece of trivia where it stands, with the token it hangs on. Mirrors `SyntaxTrivia`. -/
structure TriviaPlace where
  piece : Trivia
  position : Nat
  owner : Place

namespace TriviaPlace

def kind (t : TriviaPlace) : Kind := t.piece.kind.kind

def span (t : TriviaPlace) : Span := Span.ofWidth t.position t.piece.width

/-- Pieces that follow one another from an offset on. Mirrors `TriviaIter`. -/
def sequence (owner : Place) (position : Nat) : List Trivia → List TriviaPlace
  | [] => []
  | piece :: rest => ⟨piece, position, owner⟩ :: sequence owner (position + piece.width) rest

end TriviaPlace

namespace Place

/-- The trivia in front of the first present token; `none` where all tokens are missing. Mirrors
`SyntaxNode::leading_trivia`. -/
def leadingTrivia? (p : Place) : Option (List TriviaPlace) :=
  match p.element with
  | .token t => some (TriviaPlace.sequence p p.position t.leading)
  | .node _ _ => do
    let first ← p.firstPresent?
    let t ← first.token?
    some (TriviaPlace.sequence first first.position t.leading)

/-- The trivia behind the last present token; `none` where all tokens are missing. Mirrors
`SyntaxNode::trailing_trivia`. -/
def trailingTrivia? (p : Place) : Option (List TriviaPlace) :=
  match p.element with
  | .token t => some (TriviaPlace.sequence p p.textSpan.stop t.trailing)
  | .node _ _ => do
    let last ← p.lastPresent?
    let t ← last.token?
    some (TriviaPlace.sequence last last.textSpan.stop t.trailing)

/-- Mirrors `SyntaxToken::has_comments`. -/
def hasComment (p : Place) : Bool := (p.token?.map Token.hasComment).getD false

end Place

/-! ## Whole trees -/

/-- A tree over the text it spans. Its root is a node. -/
structure SyntaxTree where
  text : Text
  kind : Kind
  slots : Slots Kind Token

/-- Why no place can be reached through a slot. -/
inductive SlotError where
  | outOfRange (index : Nat) (kind : Kind) (slots : Nat)
  | ofToken (index : Nat) (kind : Kind)
  deriving DecidableEq, Repr

def SlotError.message : SlotError → String
  | .outOfRange index kind slots =>
    s!"slot {index} is out of range for {kind.name} with {slots} slots"
  | .ofToken index kind => s!"slot {index} is out of range for token {kind.name}"

/-- What stands in a slot of a place; a slot that there is may be empty. Mirrors
`SyntaxElement::slot`. -/
def Place.slot (p : Place) (index : Nat) : Except SlotError (Option Place) :=
  match p.element with
  | .token t => .error (.ofToken index t.kind)
  | .node kind slots =>
    match p.slots[index]? with
    | some place => .ok place
    | none => .error (.outOfRange index kind slots.length)

/-- What stands in a slot of a place, if anything does. -/
def Place.child? (p : Place) (index : Nat) : Option Place := (p.slots[index]?).join

namespace SyntaxTree

/-- Mirrors `SyntaxTree::root`. -/
def root (tree : SyntaxTree) : Place := ⟨[], 0, .node tree.kind tree.slots⟩

/-- The place that a path of slots leads to. -/
def at? (tree : SyntaxTree) (path : List Nat) : Option Place :=
  path.foldlM Place.child? tree.root

/-- The tokens of a tree in document order. Mirrors `SyntaxTree::tokens`. -/
def tokens (tree : SyntaxTree) : List Place := tree.root.element.tokenPlaces [] 0

/-- The text of a span, if its ends fall between characters. -/
def slice? (tree : SyntaxTree) (span : Span) : Option Text := Text.slice? tree.text span

/-- The text of a span; a span that splits a character reads as nothing. -/
def textOf (tree : SyntaxTree) (span : Span) : String :=
  String.ofList ((tree.slice? span).getD [])

end SyntaxTree

end Stylesheet
