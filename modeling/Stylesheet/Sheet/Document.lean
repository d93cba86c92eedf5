import Stylesheet.Sheet.Storyboard
import Stylesheet.Sheet.Trigger

/-!
# Documents

A style sheet is a row of rule sets and storyboards. A trigger is at home in a rule set; one that
stands outside is read and reported.
-/
namespace Stylesheet

/-- What can stand in a style sheet. Mirrors `ITEM_START`. -/
def Production.itemStarts : KindSet := (KindSet.singleton .atSign).union Production.partStarts

namespace Parsing

open Production (nameStarts partStarts itemStarts)

variable {m : Type → Type} {ε : Type} [Parsing m ε]

/-- What can stand in the body of a rule set. Mirrors `rule_set_item`. -/
def ruleSetItem : m ε := do
  match ← look Cursor.kind with
  | .triggerKeyword => trigger
  | .transitionKeyword =>
    if ← holds (·.kindAt 1 = .leftParen) then transition else rule
  | _ => rule

/-- Reads `selector, selector { items }`. Mirrors `rule_set`. -/
def ruleSet : m ε := do
  let selectors ←
    separated .selector (fun c => partStarts.contains c.kind) navigatedSelector
  let selectors ← list selectors
  let body ← block nameStarts ruleSetItem
  node .ruleSet [selectors, body]

/-- Reads a trigger outside of a rule set, where it has no effect. Mirrors `misplaced_trigger`. -/
def misplacedTrigger : m ε := do
  report .misplacedTrigger
  trigger

/-- What can stand in a style sheet. -/
def item : m ε := do
  match ← look Cursor.kind with
  | .triggerKeyword => misplacedTrigger
  | .atSign => storyboard
  | _ => if ← seesAny partStarts then ruleSet else unexpected itemStarts

/-- The slots of a whole style sheet. Mirrors `document`. -/
def document : m (List (Option ε)) := do
  let items ← many do
    if ← sees .eof then return none else some <$> item
  let items ← list items
  let final ← takeFinal
  return [items, some final]

end Parsing

end Stylesheet
