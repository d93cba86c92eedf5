import Stylesheet.Sheet.Parsing

/-!
# Names

A name is an identifier, or a keyword where a name is expected; in a tree it is an identifier
either way. Names of properties and events may have an owner: `owner.name`.
-/
namespace Stylesheet

/-- The kinds of lexemes that can be names. Mirrors `NAMES`. -/
def Production.nameStarts : KindSet :=
  KindSet.ofList (.identifier :: Kind.keywords.map Prod.snd)

namespace Parsing

open Production (nameStarts)

variable {m : Type → Type} {ε : Type} [Parsing m ε]

/-- Mirrors `expect_name`. -/
def expectName : m ε := do
  if ← seesAny nameStarts then takeAs .identifier else absent .identifier

/-- Mirrors `opt_name`. -/
def optionalName : m (Option ε) := do
  optional (← seesAny nameStarts) (takeAs .identifier)

/-- Reads `name` or `owner.name` as a node of the given kind. Mirrors `qualified_name`. -/
def qualifiedName (kind : Kind) : m ε := do
  let first ← expectName
  if ← holds fun c => c.kind = .period && (c.kindAt 1).isName then
    let period ← take
    let name ← takeAs .identifier
    node kind [first, period, name]
  else node kind [none, none, first]

/-- Reads `important` or `!important`, the latter as one token. Mirrors `qualifier`. -/
def qualifier : m (Option ε) := do
  match ← look Cursor.kind with
  | .importantKeyword => some <$> take
  | .exclamationMark =>
    optional (← holds fun c => c.kindAt 1 = .importantKeyword) (takeRun .importantKeyword 2)
  | _ => return none

end Parsing

end Stylesheet
