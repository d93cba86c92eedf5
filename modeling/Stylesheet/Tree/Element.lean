import Stylesheet.Tree.Basic
import Stylesheet.Trivia

/-!
# Elements

An element of a style sheet's tree is a token, or a node labelled by its kind. Elements know widths
only; where one stands follows from what stands before it.

A token is present in the text, with trivia around it, or missing: recovery puts a missing token
where the text lacks one, and it takes no room.

* `Tree.fullWidth`: the bytes of an element, trivia included. A node's are those of its slots.
-/
namespace Stylesheet

/-- A token of a tree. Mirrors `TokenData`. -/
inductive Token where
  | present (kind : Kind) (leading : List Trivia) (width : Nat) (trailing : List Trivia)
  | missing (kind : Kind)
  deriving DecidableEq, Repr

namespace Token

def kind : Token → Kind
  | .present kind _ _ _ => kind
  | .missing kind => kind

def isMissing : Token → Bool
  | .present .. => false
  | .missing _ => true

def isPresent (t : Token) : Bool := !t.isMissing

/-- The trivia in front of a token. -/
def leading : Token → List Trivia
  | .present _ leading _ _ => leading
  | .missing _ => []

/-- The trivia behind a token. -/
def trailing : Token → List Trivia
  | .present _ _ _ trailing => trailing
  | .missing _ => []

/-- The bytes of a token's text alone. -/
def width : Token → Nat
  | .present _ _ width _ => width
  | .missing _ => 0

def leadingWidth (t : Token) : Nat := Trivia.totalWidth t.leading

def trailingWidth (t : Token) : Nat := Trivia.totalWidth t.trailing

/-- The bytes of a token, trivia included. Mirrors `TokenData::full_width`. -/
def fullWidth (t : Token) : Nat := t.leadingWidth + t.width + t.trailingWidth

def hasComment (t : Token) : Bool := Trivia.hasComment t.leading || Trivia.hasComment t.trailing

/-- The bytes of several tokens, trivia included. -/
def totalWidth : List Token → Nat
  | [] => 0
  | t :: ts => t.fullWidth + totalWidth ts

@[simp] theorem totalWidth_append (a b : List Token) :
    totalWidth (a ++ b) = totalWidth a + totalWidth b := by
  induction a with
  | nil => simp [totalWidth]
  | cons t ts ih => simp [totalWidth, ih, Nat.add_assoc]

end Token

abbrev Element := Tree Kind Token

mutual

/-- The bytes of an element, trivia included. -/
def Tree.fullWidth : Tree Kind Token → Nat
  | .token t => t.fullWidth
  | .node _ slots => slots.fullWidth

def Slots.fullWidth : Slots Kind Token → Nat
  | .nil => 0
  | .empty rest => rest.fullWidth
  | .filled e rest => e.fullWidth + rest.fullWidth

end

namespace Tree

def kind : Tree Kind Token → Kind
  | .token t => t.kind
  | .node kind _ => kind

/-- Only tokens are ever missing. -/
def isMissing : Tree Kind Token → Bool
  | .token t => t.isMissing
  | .node _ _ => false

/-- The slots of an element; a token has none. -/
def slots : Tree Kind Token → Slots Kind Token
  | .token _ => .nil
  | .node _ slots => slots

end Tree

mutual

theorem Tree.fullWidth_eq_totalWidth (e : Tree Kind Token) :
    e.fullWidth = Token.totalWidth e.tokens := by
  match e with
  | .token _ => simp [Tree.fullWidth, Tree.tokens, Token.totalWidth]
  | .node _ slots => simp [Tree.fullWidth, Tree.tokens, Slots.fullWidth_eq_totalWidth slots]

theorem Slots.fullWidth_eq_totalWidth (s : Slots Kind Token) :
    s.fullWidth = Token.totalWidth s.tokens := by
  match s with
  | .nil => rfl
  | .empty rest => simp [Slots.fullWidth, Slots.tokens, Slots.fullWidth_eq_totalWidth rest]
  | .filled e rest =>
    simp [Slots.fullWidth, Slots.tokens, Tree.fullWidth_eq_totalWidth e,
      Slots.fullWidth_eq_totalWidth rest]

end

end Stylesheet
