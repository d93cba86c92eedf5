import Stylesheet.Sheet.Parsing
import Stylesheet.Sheet.Run

/-!
# Blocks and separated lists

A block holds items between braces, and errors for what is no item. Without an opening brace it is
empty: both braces are missing, one report covers them, and nothing is read.

A separated list holds items with commas between them. It is greedy: where an item could start and
no comma stands, the comma is missing.
-/
namespace Stylesheet.Parsing

variable {m : Type → Type} {ε : Type} [Parsing m ε]

/-- Reads what fits nowhere, up to where items can start again. Mirrors `error_until`. -/
def unexpected (starts : KindSet) : m ε := do
  report (.unexpected (← look Cursor.kind))
  let skipped ← takeEach (← look fun c => Run.unexpectedLength starts true 0 c.ahead)
  node .error (skipped.map some)

/-- Reads `{ items }`, where each item starts with one of the given kinds. Mirrors `block`. -/
def block (starts : KindSet) (item : m ε) : m ε := do
  if ← sees .leftBrace then
    let opening ← take
    let items ← many do
      if (← sees .rightBrace) || (← sees .eof) then return none
      else if ← seesAny starts then some <$> item
      else some <$> unexpected starts
    let content ← list items
    let closing ← expect .rightBrace
    node .block [opening, content, closing]
  else
    let opening ← absent .leftBrace
    let closing ← missing .rightBrace
    node .block [opening, none, closing]

/-- Reads items with commas between them. An item starts where the condition holds. Mirrors
`separated`. -/
def separated (listed : Listed) (starts : Cursor → Bool) (item : m ε) :
    m (List ε) := do
  let groups ← many do
    if ← holds starts then
      let first ← item
      if ← sees .comma then
        let comma ← take
        if !(← holds starts) then report (.nothingAfterComma listed)
        return some [first, comma]
      else if ← holds starts then
        let comma ← absent .comma
        return some [first, comma]
      else return some [first]
    else return none
  return groups.flatten

end Stylesheet.Parsing
