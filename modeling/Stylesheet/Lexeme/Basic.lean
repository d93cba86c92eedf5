import Stylesheet.Text.Width
import Stylesheet.Trivia

/-!
# Lexemes

A style sheet falls into lexemes. A lexeme is a text of its own together with the trivia around it
that it owns: all of it in front, and behind it up to the end of the line. So the lexemes of a
style sheet, written one after the other, are the style sheet.

* `Lexeme.fullText`: all the text a lexeme owns.
* `Lexeme.touches`: no trivia stands between two lexemes that follow one another.
-/
namespace Stylesheet

/-- A stretch of trivia as it stands in the text. -/
structure Gap where
  kind : TriviaKind
  text : Text
  deriving DecidableEq, Repr

namespace Gap

def width (gap : Gap) : Nat := Text.width gap.text

/-- The piece of trivia a gap leaves in a tree. -/
def trivia (gap : Gap) : Trivia := ⟨gap.kind, gap.width⟩

/-- The text of several gaps. -/
def textOf (gaps : List Gap) : Text := gaps.flatMap (·.text)

end Gap

/-- Mirrors `Token`. -/
structure Lexeme where
  leading : List Gap
  kind : Kind
  /-- The text without the trivia around it. -/
  text : Text
  trailing : List Gap
  deriving DecidableEq, Repr

namespace Lexeme

def fullText (l : Lexeme) : Text := Gap.textOf l.leading ++ l.text ++ Gap.textOf l.trailing

def leadingWidth (l : Lexeme) : Nat := Text.width (Gap.textOf l.leading)

def width (l : Lexeme) : Nat := Text.width l.text

def trailingWidth (l : Lexeme) : Nat := Text.width (Gap.textOf l.trailing)

/-- All the bytes a lexeme owns. -/
def fullWidth (l : Lexeme) : Nat := l.leadingWidth + l.width + l.trailingWidth

/-- No trivia stands between a lexeme and the next one. -/
def touches (l next : Lexeme) : Bool := l.trailing.isEmpty && next.leading.isEmpty

/-- The text of several lexemes. -/
def textOf (ls : List Lexeme) : Text := ls.flatMap fullText

/-- The bytes several lexemes own. -/
def widthOf : List Lexeme → Nat
  | [] => 0
  | l :: ls => l.fullWidth + widthOf ls

theorem width_fullText (l : Lexeme) : Text.width l.fullText = l.fullWidth := by
  simp [fullText, fullWidth, leadingWidth, width, trailingWidth, Nat.add_assoc]

theorem width_textOf (ls : List Lexeme) : Text.width (textOf ls) = widthOf ls := by
  induction ls with
  | nil => rfl
  | cons l ls ih => simp_all [textOf, widthOf, width_fullText]

/-- The kind of the lexeme `n` places on; past the end it is the end's. -/
def kindAt (ls : List Lexeme) (n : Nat) : Kind := ((ls[n]?).map (·.kind)).getD .eof

/-- Each lexeme with the offset at which its text starts, the first one's trivia starting at
`offset`. -/
def located (offset : Nat) : List Lexeme → List (Nat × Lexeme)
  | [] => []
  | l :: ls => (offset + l.leadingWidth, l) :: located (offset + l.fullWidth) ls

end Lexeme

end Stylesheet
