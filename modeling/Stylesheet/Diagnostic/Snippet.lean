import Stylesheet.Diagnostic.Basic
import Stylesheet.Text.Blank
import Stylesheet.Text.Lines
import Stylesheet.Text.Overlay

/-!
# Snippets

A diagnostic is shown with the lines of text it is about. They are numbered, a bar stands between
numbers and text, and marks point out the span: carets for an error, hyphens for a warning.

* A span that fits a line is marked below it. It fits up to the end of the line's ending, or one
  byte further than the text where there is no ending.
* A longer span is drawn along the left side, from its start on the first line to its end on the
  first line that it fits. Of more than three lines in between the first and the last are shown.
* Of a wide indentation that all lines have in common, dots are left; where no line has more than
  blanks, dots are left of each line. Marks move to the left by as much as their line has lost, and
  cover what they reach.
* Where the snippet has no text at all, only an empty frame is left.

Columns count characters; control characters take none.
-/
namespace Stylesheet.Snippet

/-- The characters of a text that end within its first `n` bytes. -/
def upTo : Nat → Text → Text
  | _, [] => []
  | n, c :: cs => if c.utf8Size ≤ n then c :: upTo (n - c.utf8Size) cs else []

def isControl (c : Char) : Bool := c.toNat < 0x20 || (0x7F ≤ c.toNat && c.toNat < 0xA0)

/-- The columns a text takes. -/
def columns (text : Text) : Nat := (text.filter (!isControl ·)).length

/-- A numbered line, and where it starts. -/
structure Row where
  number : Nat
  offset : Nat
  line : Line

namespace Row

/-- The rows of lines that follow one another. -/
def sequence (number offset : Nat) : List Line → List Row
  | [] => []
  | line :: rest => ⟨number, offset, line⟩ :: sequence (number + 1) (offset + line.width) rest

/-- Whether a span that starts no later than the row ends in it. -/
def fits (row : Row) (stop : Nat) : Bool :=
  stop ≤ row.offset + Text.width row.line.text + max row.line.ending 1

/-- Whether an offset lies beyond the text of the row. -/
def endsBefore (row : Row) (offset : Nat) : Bool :=
  row.offset + Text.width row.line.text < offset

/-- The part of the row's text before an offset. -/
def before (row : Row) (offset : Nat) : Text := upTo (offset - row.offset) row.line.text

end Row

/-- The lines of a text from the one that a span starts in to the one that it ends in. -/
def rows (text : Text) (span : Span) : List Row :=
  let before := upTo span.start text
  let start := span.start - Text.width (Text.lastLine before)
  let rest := text.drop (before.length - (Text.lastLine before).length)
  let inside := upTo (span.stop - start) rest
  let snippet := inside ++ Text.firstLine (rest.drop inside.length)
  Row.sequence (1 + before.count '\n') start (Text.lines snippet)

/-! ## Indentation -/

/-- The blanks that all lines start with, lines of blanks alone not counted; `none` if there are no
others. -/
def indentation (rows : List Row) : Option Nat :=
  let texts := (rows.map (·.line.text)).filter (!·.all isBlank)
  (texts.map fun text => (text.takeWhile isBlank).length).min?

/-- How much of an indentation is left out: of more than 26 blanks, all but 22. -/
def omittedOf (indentation : Nat) : Nat := if 26 < indentation then indentation - 22 else 0

/-! ## Drawing -/

/-- How the rows of a snippet are laid out. -/
structure Layout where
  /-- The room for line numbers. -/
  width : Nat
  /-- Whether the span is drawn along the left side. -/
  sided : Bool
  /-- How many characters each line loses at its start; `none` if all of them. -/
  omitted : Option Nat

namespace Layout

/-- The column on the left side. -/
def side (l : Layout) : Nat := l.width + 3

/-- The column at which texts start. -/
def column (l : Layout) : Nat := if l.sided then l.side + 2 else l.side

/-- The number of characters that a text loses. -/
def lost (l : Layout) (text : Text) : Nat := min (l.omitted.getD text.length) text.length

/-- The bar between numbers and text. -/
def bar (l : Layout) : Text := Text.overlay [] (l.width + 1) ['|']

/-- A line behind its number, with a sign of the span on the left side. -/
def line (l : Layout) (row : Row) (sign : Text) : Text :=
  let digits := (toString row.number).toList
  let numbered := Text.overlay l.bar (l.width - digits.length) digits
  let signed := Text.overlay numbered l.side sign
  let shown := Text.overlay signed l.column (row.line.text.drop (l.lost row.line.text))
  if l.omitted = some 0 then shown else Text.overlay shown l.column "...".toList

/-- Draws marks below a column of a line and those behind it, `count` altogether. -/
def drawMarks (l : Layout) (row : Row) (mark : Char) (start count : Nat) (drawn : Text) : Text :=
  (List.range' start count).foldl
    (fun drawn column => Text.overlay drawn (l.column + column - l.lost row.line.text) [mark]) drawn

/-- Draws the label to the right of the marks that stop before a column. -/
def drawLabel (l : Layout) (row : Row) (stop : Nat) (drawn : Text) : Text :=
  Text.overlay drawn (l.column + (stop + 1 - l.lost row.line.text)) "here".toList

/-- Draws a line from the left side to below a column. -/
def drawLine (l : Layout) (row : Row) (column : Nat) (drawn : Text) : Text :=
  let reach := l.column + column - l.lost row.line.text
  Text.overlay drawn (l.side + 1) (List.replicate (reach - l.side) '_')

/-- The rows for a span that fits its first line. -/
def single (l : Layout) (mark : Char) (span : Span) (row : Row) : List Text :=
  let start := columns (row.before span.start)
  let count := max 1 (columns (row.before span.stop) - start)
  [l.line row [], l.drawMarks row mark start count (l.drawLabel row (start + count) l.bar)]

/-- The first rows of a longer span. Where the text has blanks before the span, as many characters
as there are columns, a slash says so. -/
def opening (l : Layout) (mark : Char) (span : Span) (row : Row) : List Text :=
  let start := columns (row.before span.start)
  if (row.line.text.take start).all isBlank then [l.line row ['/']]
  else [l.line row [], l.drawMarks row mark start 1 (l.drawLine row start l.bar)]

/-- A line that a longer span covers. -/
def covered (l : Layout) (row : Row) : Text := l.line row ['|']

/-- The rows between the first and the last line. -/
def middle (l : Layout) (between : List Row) : List Text :=
  match between with
  | first :: _ :: _ :: last :: rest =>
    [l.covered first, Text.overlay "...".toList l.side ['|'],
      l.covered (rest.getLast?.getD last)]
  | few => few.map l.covered

/-- The last rows of a longer span. -/
def closing (l : Layout) (mark : Char) (span : Span) (row : Row) : List Text :=
  let last := columns (row.before span.stop) - 1 + (if row.endsBefore span.stop then 1 else 0)
  let sided := Text.overlay (l.drawLine row last l.bar) l.side ['|']
  [l.covered row, l.drawMarks row mark last 1 (l.drawLabel row (last + 1) sided)]

/-- The frame around the rows of a snippet. -/
def frame (l : Layout) (path : String) (line column : Nat) (body : List Text) : List Text :=
  let arrow := Text.overlay (Text.overlay [] l.width "-->".toList) (l.width + 4) path.toList
  [arrow ++ (s!":{line}:{column}").toList, l.bar] ++ body ++ [l.bar]

end Layout

/-- The digits of a line number. -/
def digits (n : Nat) : Nat := (toString n).length

def mark : Severity → Char
  | .error => '^'
  | .warning => '-'

/-- The rows below a diagnostic's heading. -/
def body (severity : Severity) (span : Span) (path : String) (rows : List Row) : List Text :=
  let omitted := (indentation rows).map omittedOf
  match rows with
  | [] => Layout.frame ⟨0, false, omitted⟩ path 1 1 []
  | first :: more =>
    let column := (first.before span.start).length + 1
    let mark := mark severity
    if first.fits span.stop then
      let layout : Layout := ⟨digits first.number, false, omitted⟩
      layout.frame path first.number column (layout.single mark span first)
    else
      let between := more.takeWhile (!·.fits span.stop)
      let last := (more.drop between.length).head?.getD (more.getLast?.getD first)
      let layout : Layout := ⟨digits last.number, true, omitted⟩
      layout.frame path first.number column
        (layout.opening mark span first ++ layout.middle between ++ layout.closing mark span last)

end Stylesheet.Snippet

namespace Stylesheet

/-- A diagnostic with the lines of text it is about. Mirrors `Diagnostic::render`. -/
def Diagnostic.render (d : Diagnostic) (path : String) (text : Text) : String :=
  let body := Snippet.body d.severity d.span path (Snippet.rows text d.span)
  "\n".intercalate (d.heading :: body.map String.ofList)

end Stylesheet
