import Stylesheet.Sheet.Name

/-!
# Selectors

A selector is a row of parts and of combinators between them. Parts that follow one another without
a combinator are nested as descendants. Whether a mark goes on with a part or starts the next one
depends on whether it touches what stands before it, and on nothing else.

A selector may be followed by a navigation expression, `| owner.property [index] as Type`.
-/
namespace Stylesheet

namespace Production

/-- What a part of a selector can start with. Mirrors `PART_START`. -/
def partStarts : KindSet :=
  (KindSet.ofList [.period, .hash, .asterisk, .colon]).union nameStarts

/-- Mirrors `COMBINATORS`. -/
def combinators : KindSet :=
  KindSet.ofList [.greaterThan, .greaterThanGreaterThan, .greaterThanQuestionMark]

/-- The marks that go on with a part when they touch it. -/
def partMarks : KindSet := KindSet.ofList [.period, .hash, .colon]

end Production

namespace Parsing

open Production

variable {m : Type → Type} {ε : Type} [Parsing m ε]

/-- Reads a name that touches the mark in front of it. Mirrors `adjacent_name`. -/
def touchingName : m ε := do
  if ← holds fun c => c.touching && nameStarts.contains c.kind then takeAs .identifier
  else absent .identifier

/-- Reads an exclamation mark that touches what stands before it. -/
def touchingMark : m (Option ε) := do
  optional (← holds fun c => c.touching && c.kind = .exclamationMark) take

/-- Reads `name`, `*`, `.class`, `#name` or `:pseudo-class`. Mirrors `sub_part`. -/
def subPart : m ε := do
  match ← look Cursor.kind with
  | .colon =>
    let colon ← take
    let name ← touchingName
    node .pseudoClass [colon, name]
  | .period | .hash =>
    let mark ← take
    let name ← touchingName
    let trailing ← touchingMark
    node .selectorSubPart [mark, name, trailing]
  | .asterisk =>
    let star ← take
    let trailing ← touchingMark
    node .selectorSubPart [none, star, trailing]
  | _ =>
    let name ← expectName
    let trailing ← touchingMark
    node .selectorSubPart [none, name, trailing]

/-- Mirrors `selector_part`. -/
def selectorPart : m ε := do
  let first ← subPart
  let more ← many do
    optional (← holds fun c => c.touching && partMarks.contains c.kind) subPart
  let subParts ← list (first :: more)
  node .selectorPart [subParts]

/-- Mirrors `selector`. -/
def selector : m ε := do
  let components ← many do
    if ← seesAny combinators then some <$> take
    else optional (← seesAny partStarts) selectorPart
  if components.isEmpty then reportGap .expectedSelector
  let components ← list components
  node .selector [components]

/-- Reads `( selector )`. Mirrors `selector_with_parentheses`. -/
def parenthesizedSelector : m ε := do
  let opening ← expect .leftParen
  let inner ← selector
  let closing ← expect .rightParen
  node .selectorWithParentheses [opening, inner, closing]

/-- Reads `[ index ]`. -/
def indexer : m ε := do
  let opening ← expect .leftBracket
  let index ← expect .number
  let closing ← expect .rightBracket
  node .navigationExpressionIndexer [opening, index, closing]

/-- Reads `| owner.property [index] as Type`. Mirrors `navigation_expression`. -/
def navigation : m ε := do
  let pipe ← expect .pipe
  let property ← qualifiedName .propertyName
  let index ← optional (← sees .leftBracket) indexer
  let asKeyword ← expect .asKeyword
  let type ← expectName
  node .navigationExpression [pipe, property, index, asKeyword, type]

/-- Mirrors `selector_with_navigation_expression`. -/
def navigatedSelector : m ε := do
  let inner ← selector
  let path ← optional (← sees .pipe) navigation
  node .selectorWithNavigationExpression [inner, path]

end Parsing

end Stylesheet
