import Stylesheet.Tree.Traversal
import Stylesheet.View.Access

/-!
# Classification

A classified span is a stretch of a style sheet with the role it plays, for highlighting. Comments,
numbers, values and keywords are told by what they are; names, colons and selectors by the slots
they fill. What is missing, or has no width, plays no role.

`classify` lists the spans of a place by where they start; those that start together come in the
order in which the walk meets them.
-/
namespace Stylesheet

/-- Mirrors `Classification`. -/
inductive Role where
  | comment
  | number
  | keyword
  | selector
  | propertyName
  | propertyValue
  | storyboard
  | typeName
  deriving DecidableEq, Repr

def Role.name : Role → String
  | .comment => "Comment"
  | .number => "Number"
  | .keyword => "Keyword"
  | .selector => "Selector"
  | .propertyName => "PropertyName"
  | .propertyValue => "PropertyValue"
  | .storyboard => "Storyboard"
  | .typeName => "TypeName"

/-- Mirrors `ClassifiedSpan`. -/
structure ClassifiedSpan where
  span : Span
  role : Role
  deriving DecidableEq, Repr

namespace Classification

/-- The span of an element in a role, if it has any text. Mirrors `Classifier::push`. -/
def spanOf (role : Role) (p : Place) : Option ClassifiedSpan :=
  if p.isMissing || p.width = 0 then none else some ⟨p.textSpan, role⟩

/-- The role of a token, whatever slot it fills. -/
def tokenRole? : Kind → Option Role
  | .number => some .number
  | .propertyValueToken => some .propertyValue
  | kind => if kind.isKeyword then some .keyword else none

/-- The slots whose tokens have a role in a node of a kind. -/
def slotRoles : Kind → List (Nat × Role)
  | .rule => [(1, .propertyName)]
  | .propertyName | .eventName => [(0, .typeName), (2, .propertyName)]
  | .storyboard => [(0, .storyboard), (1, .storyboard), (2, .storyboard)]
  | .storyboardTarget => [(1, .typeName)]
  | .animationKeyframe => [(2, .keyword)]
  | .navigationExpression => [(4, .typeName)]
  | _ => []

/-- The spans that an element gives rise to when the walk meets it. Mirrors `Classifier::visit`. -/
def ofElement (p : Place) : List ClassifiedSpan :=
  match p.element with
  | .token t => ((tokenRole? t.kind).bind fun role => spanOf role p).toList
  | .node .selector _ => (p.listIn 0).filterMap (spanOf .selector)
  | .node kind _ =>
    (slotRoles kind).filterMap fun (slot, role) => (p.tokenIn? slot).bind (spanOf role)

/-- Mirrors `Classifier::visit_trivia`. -/
def ofVisit : Visit → List ClassifiedSpan
  | .element p => ofElement p
  | .trivia t => if t.piece.kind.isComment then [⟨t.span, .comment⟩] else []

end Classification

/-- The classified spans at and below a place. Mirrors `classify`. -/
def classify (p : Place) : List ClassifiedSpan :=
  (p.visits.flatMap Classification.ofVisit).mergeSort fun a b => a.span.start ≤ b.span.start

end Stylesheet
