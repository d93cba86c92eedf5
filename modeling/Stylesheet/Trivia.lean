import Stylesheet.Kind.Basic

/-!
# Trivia

White space, line ends and comments carry no structure: they hang on the tokens before and after
them, as lists of pieces. A piece is a kind and a width.
-/
namespace Stylesheet

/-- Mirrors `TriviaPieceKind`. -/
inductive TriviaKind where
  | whitespace
  | endOfLine
  | singleLineComment
  /-- One piece, whatever number of lines it spans. -/
  | multiLineComment
  deriving DecidableEq, Repr

namespace TriviaKind

def name : TriviaKind → String
  | .whitespace => "Whitespace"
  | .endOfLine => "EndOfLine"
  | .singleLineComment => "SingleLineComment"
  | .multiLineComment => "MultiLineComment"

/-- The kind of syntax a piece counts as. Mirrors `TriviaPieceKind::syntax_kind`. -/
def kind : TriviaKind → Kind
  | .whitespace => .whitespaceTrivia
  | .endOfLine => .endOfLineTrivia
  | .singleLineComment => .singleLineCommentTrivia
  | .multiLineComment => .multiLineCommentTrivia

/-- Mirrors `TriviaPieceKind::is_comment`. -/
def isComment : TriviaKind → Bool
  | .singleLineComment | .multiLineComment => true
  | .whitespace | .endOfLine => false

end TriviaKind

/-- A piece of trivia. Mirrors `TriviaPiece`. -/
structure Trivia where
  kind : TriviaKind
  width : Nat
  deriving DecidableEq, Repr

namespace Trivia

/-- The width of a list of pieces. Mirrors `Trivia::len`. -/
def totalWidth : List Trivia → Nat
  | [] => 0
  | piece :: rest => piece.width + totalWidth rest

/-- Mirrors `Trivia::has_comment`. -/
def hasComment (pieces : List Trivia) : Bool := pieces.any (·.kind.isComment)

def display (piece : Trivia) : String :=
  s!"TriviaPiece \x7b kind: {piece.kind.name}, len: {piece.width} \x7d"

/-- A list of pieces as listings write it, with its width. Mirrors `Trivia::fmt`. -/
def displayAll (pieces : List Trivia) : String :=
  let inner := ", ".intercalate (pieces.map display)
  s!"Trivia \x7b pieces: [{inner}], total_len: {totalWidth pieces} \x7d"

@[simp] theorem totalWidth_nil : totalWidth [] = 0 := rfl

@[simp] theorem totalWidth_append (a b : List Trivia) :
    totalWidth (a ++ b) = totalWidth a + totalWidth b := by
  induction a with
  | nil => simp
  | cons piece rest ih => simp [totalWidth, ih, Nat.add_assoc]

end Trivia

end Stylesheet
