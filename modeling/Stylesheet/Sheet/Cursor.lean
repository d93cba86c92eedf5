import Stylesheet.Lexeme.Basic
import Stylesheet.Text.Span

/-!
# Cursors

A cursor stands between two lexemes of a style sheet. It knows what lies ahead and, to tell whether
the next lexeme touches the one before it, the last lexeme behind. At the end the next lexeme is
the final one, which is never passed.
-/
namespace Stylesheet

/-- How far the lexemes of a style sheet are read. Mirrors `Parser`. -/
structure Cursor where
  /-- Where the next lexeme starts, trivia included. -/
  offset : Nat
  behind : Option Lexeme
  /-- The lexemes ahead but the final one. -/
  ahead : List Lexeme
  final : Lexeme
  deriving DecidableEq, Repr

namespace Cursor

/-- Mirrors `Parser::current`. -/
def next (c : Cursor) : Lexeme := c.ahead.headD c.final

/-- The kind of the lexeme `n` places ahead; past the end it is the end's. Mirrors `nth_kind`. -/
def kindAt (c : Cursor) (n : Nat) : Kind := Lexeme.kindAt c.ahead n

/-- Mirrors `peek_kind`. -/
def kind (c : Cursor) : Kind := c.kindAt 0

/-- No trivia stands between the next lexeme and one before it. Mirrors `adjacent`. -/
def touching (c : Cursor) : Bool := (c.behind.map (·.touches c.next)).getD false

/-- The span of the next lexeme's text. Mirrors `current_range`. -/
def span (c : Cursor) : Span := Span.ofWidth (c.offset + c.next.leadingWidth) c.next.width

/-- The empty span where the next lexeme's text starts. -/
def gap (c : Cursor) : Span := Span.emptyAt c.span.start

/-- The cursor behind the next `count` lexemes. -/
def advance (c : Cursor) (count : Nat) : Cursor :=
  let passed := c.ahead.take count
  { c with
    offset := c.offset + Lexeme.widthOf passed
    behind := passed.getLast?.or c.behind
    ahead := c.ahead.drop count }

end Cursor

end Stylesheet
