import Stylesheet.Text.Span

/-!
# Lines

A line ends at a line feed; a carriage return right before the line feed belongs to the ending. A
carriage return elsewhere is a character of its line like any other. What follows the last line
feed is a line only if there is something.

* `Text.lines`: the lines of a text, each with the width of its ending.
* `Text.lineColumn?`: where an offset stands, as a line and a byte column.
* `Text.lineSpan?`: where both ends of a span do.
-/
namespace Stylesheet

/-- A line: its characters, and the bytes of its ending. -/
structure Line where
  text : Text
  ending : Nat
  deriving DecidableEq, Repr

/-- Bytes of a line, its ending included. -/
def Line.width (line : Line) : Nat := Text.width line.text + line.ending

/-- A place in a text, both counted from zero; the column counts bytes. -/
structure LineColumn where
  line : Nat
  column : Nat
  deriving DecidableEq, Repr

namespace Text

def lines : Text → List Line
  | [] => []
  | '\n' :: cs => ⟨[], 1⟩ :: lines cs
  | '\r' :: '\n' :: cs => ⟨[], 2⟩ :: lines cs
  | c :: cs =>
    match lines cs with
    | [] => [⟨[c], 0⟩]
    | line :: rest => ⟨c :: line.text, line.ending⟩ :: rest

/-- The lines of a printed text, endings left out. -/
def displayLines (text : String) : List String :=
  (lines text.toList).map fun line => String.ofList line.text

/-- The characters after the last line feed. -/
def lastLine (text : Text) : Text := (text.reverse.takeWhile (· ≠ '\n')).reverse

/-- The characters before the first line feed. -/
def firstLine (text : Text) : Text := text.takeWhile (· ≠ '\n')

/-- Where an offset stands; `none` inside a character and past the end of the text. Mirrors
`line_col`. -/
def lineColumn? (text : Text) (offset : Nat) : Option LineColumn :=
  (take? offset text).map fun before => ⟨before.count '\n', width (lastLine before)⟩

/-- Where the ends of a span stand, if both fall between characters. Mirrors `LineSpans::range`. -/
def lineSpan? (text : Text) (span : Span) : Option (LineColumn × LineColumn) := do
  return (← lineColumn? text span.start, ← lineColumn? text span.stop)

end Text

end Stylesheet
