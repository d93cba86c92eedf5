import Stylesheet.Lexeme.Basic
import Stylesheet.Tree.Element

/-!
# Drafts

While a style sheet is read its tree is a draft: a token is still the run of lexemes it is made
from. `Draft.element` forgets the lexemes and keeps their widths.
-/
namespace Stylesheet

/-- A token of a draft: lexemes that follow one another, taken together as one token of a kind, or
a token that the text lacks. -/
inductive Piece where
  | run (kind : Kind) (first : Lexeme) (more : List Lexeme)
  | missing (kind : Kind)
  deriving DecidableEq, Repr

namespace Piece

/-- The text from the start of the first lexeme to the end of the last one, trivia between them
included. -/
def joinedText (first : Lexeme) : List Lexeme → Text
  | [] => first.text
  | next :: more =>
    first.text ++ Gap.textOf first.trailing ++ Gap.textOf next.leading ++ joinedText next more

/-- The last lexeme of a run. -/
def lastOf (first : Lexeme) (more : List Lexeme) : Lexeme := more.getLast?.getD first

/-- The lexemes a piece is made from. -/
def lexemes : Piece → List Lexeme
  | .run _ first more => first :: more
  | .missing _ => []

/-- The token a piece becomes. It owns the trivia in front of its first lexeme and behind its last
one; what lies between is part of its text. Mirrors `bump_merged`. -/
def token : Piece → Token
  | .run kind first more =>
    .present kind (first.leading.map Gap.trivia) (Text.width (joinedText first more))
      ((lastOf first more).trailing.map Gap.trivia)
  | .missing kind => .missing kind

end Piece

abbrev Draft := Tree Kind Piece

namespace Draft

/-- A node with the given slots. -/
def composite (kind : Kind) (slots : List (Option Draft)) : Draft :=
  Tree.node kind (Slots.ofList slots)

/-- A list of drafts in one slot. No list is empty: the slot is. Mirrors `ListMarker::complete`. -/
def list (items : List Draft) : Option Draft :=
  if items.isEmpty then none else some (composite .list (items.map some))

def missing (kind : Kind) : Draft := Tree.token (.missing kind)

/-- A token of one lexeme. -/
def single (kind : Kind) (l : Lexeme) : Draft := Tree.token (.run kind l [])

/-- The lexemes below a draft, in order. -/
def lexemes (d : Draft) : List Lexeme := d.tokens.flatMap Piece.lexemes

/-- The element a draft becomes. -/
def element (d : Draft) : Element := d.map id Piece.token

end Draft

end Stylesheet
