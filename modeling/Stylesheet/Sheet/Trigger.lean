import Stylesheet.Sheet.Declaration
import Stylesheet.Sheet.Selector

/-!
# Triggers

A trigger performs actions when properties compare as it says,
`trigger property a = 1, b <> 2 { actions }`, or when an event is raised,
`trigger event Owner.Event (handled) { actions }`.
-/
namespace Stylesheet

/-- Mirrors `ACTION_START`. -/
def Production.actionStarts : KindSet :=
  KindSet.ofList [.playStoryboardKeyword, .playSfxKeyword, .setKeyword]

namespace Parsing

open Production (actionStarts)

variable {m : Type → Type} {ε : Type} [Parsing m ε]

/-- Reads a selector in parentheses, if there is one. -/
def actionSelector : m (Option ε) := do
  optional (← sees .leftParen) parenthesizedSelector

/-- Mirrors `action`. -/
def action : m ε := do
  match ← look Cursor.kind with
  | .playStoryboardKeyword =>
    let keyword ← take
    let target ← actionSelector
    let content ← value .action
    let semicolon ← accept .semicolon
    node .playStoryboardTriggerAction [keyword, target, content, semicolon]
  | .playSfxKeyword =>
    let keyword ← take
    let content ← value .action
    let semicolon ← accept .semicolon
    node .playSfxTriggerAction [keyword, content, semicolon]
  | _ =>
    let keyword ← expect .setKeyword
    let property ← qualifiedName .propertyName
    let target ← actionSelector
    let content ← value .action
    let semicolon ← accept .semicolon
    node .setTriggerAction [keyword, property, target, content, semicolon]

/-! ## Triggers on properties -/

/-- Reads a comparison; in its absence an equals sign is missing. -/
def comparison : m ε := do
  if ← holds (·.kind.isComparison) then take else lacking .equals .expectedComparison

/-- Reads `owner.name = value`. Mirrors `evaluation`. -/
def evaluation : m ε := do
  let property ← qualifiedName .propertyName
  let operator ← comparison
  let content ← value .evaluation
  node .propertyTriggerEvaluation [property, operator, content]

/-- Mirrors `property_trigger`. -/
def propertyTrigger : m ε := do
  let triggerKeyword ← expect .triggerKeyword
  let propertyKeyword ← expect .propertyKeyword
  let evaluations ← separated .evaluation
    (fun c => c.kind.isName && c.kind ≠ .importantKeyword) evaluation
  if evaluations.isEmpty then reportGap .expectedEvaluation
  let evaluations ← list evaluations
  let mark ← qualifier
  let body ← block actionStarts action
  node .propertyTrigger [triggerKeyword, propertyKeyword, evaluations, mark, body]

/-! ## Triggers on events -/

/-- Reads a name as it is; only two of them are known. -/
def eventArgument : m ε := do
  if !(← holds fun c => c.kind = .handledKeyword || c.kind = .setHandledKeyword) then
    report (.unknownEventArgument (← look (·.next.text)))
  take

/-- Mirrors `event_arguments`. -/
def eventArguments : m ε := do
  let opening ← take
  let arguments ← separated .eventArgument (·.kind.isName) eventArgument
  let arguments ← list arguments
  let closing ← expect .rightParen
  node .eventTriggerArgumentList [opening, arguments, closing]

/-- Mirrors `event_trigger`. -/
def eventTrigger : m ε := do
  let triggerKeyword ← expect .triggerKeyword
  let eventKeyword ← expect .eventKeyword
  let event ← qualifiedName .eventName
  let arguments ← optional (← sees .leftParen) eventArguments
  let mark ← qualifier
  let body ← block actionStarts action
  node .eventTrigger [triggerKeyword, eventKeyword, event, arguments, mark, body]

/-- Reads a trigger of either sort; the lexeme after its keyword decides. Mirrors `trigger`. -/
def trigger : m ε := do
  if ← holds (·.kindAt 1 = .eventKeyword) then eventTrigger else propertyTrigger

end Parsing

end Stylesheet
