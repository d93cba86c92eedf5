import Stylesheet.Sheet.Block
import Stylesheet.Sheet.Name

/-!
# Declarations

A rule gives a property a value, `owner.name: value !important;`. A transition does so for a change
between two states, `transition (group, from, to): value;`. A value is one token, whatever it is
made of; between braces it may hold anything.
-/
namespace Stylesheet.Parsing

open Production (nameStarts)

variable {m : Type → Type} {ε : Type} [Parsing m ε]

/-- Reads `{ value }`. Without an opening brace all three parts are missing, with one report.
Mirrors `value_with_braces`. -/
def bracedValue : m ε := do
  if ← sees .leftBrace then
    let opening ← take
    let content ← contentOf (← look fun c => Run.bracedLength 0 c.ahead)
    let closing ← expect .rightBrace
    node .propertyValueWithBraces [opening, content, closing]
  else
    let opening ← absent .leftBrace
    let content ← missing .propertyValueToken
    let closing ← missing .rightBrace
    node .propertyValueWithBraces [opening, content, closing]
where
  contentOf (count : Nat) : m ε :=
    if count = 0 then absent .propertyValueToken else takeRun .propertyValueToken count

/-- Reads a value up to what ends it where it stands. Mirrors `value`. -/
def value (context : Run.Context) : m ε := do
  if ← holds fun c => c.kind = .leftBrace && context ≠ .evaluation then bracedValue
  else
    let content ← bracedValue.contentOf (← look fun c => Run.valueLength context true c.ahead)
    node .propertyValue [content]

/-- Mirrors `rule`. -/
def rule : m ε := do
  let property ← qualifiedName .propertyName
  let colon ← expect .colon
  let content ← value .declaration
  let mark ← qualifier
  let semicolon ← expect .semicolon
  node .rule [property, colon, content, mark, semicolon]

/-- Mirrors `transition_arguments`. -/
def transitionArguments : m ε := do
  let opening ← expect .leftParen
  let arguments ← separated .transitionArgument (fun c => nameStarts.contains c.kind)
    (takeAs .identifier)
  let arguments ← list arguments
  let closing ← expect .rightParen
  node .transitionArgumentList [opening, arguments, closing]

/-- Mirrors `transition`. -/
def transition : m ε := do
  let keyword ← take
  let arguments ← transitionArguments
  let colon ← expect .colon
  let content ← value .declaration
  let mark ← qualifier
  let semicolon ← expect .semicolon
  node .transition [keyword, arguments, colon, content, mark, semicolon]

end Stylesheet.Parsing
