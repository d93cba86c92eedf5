import Stylesheet.Kind.Basic

/-!
# Views of nodes

A view names what the slots of a node of one kind mean. Some views form groups, for places where
any of several may stand.

* `View.fields`: the fields of each view, with the slots they are read from.
* `Target.view?`: the view that a node of a kind has under a target, if it has one.
-/
namespace Stylesheet

inductive View where
  | document
  | ruleSet
  | block
  | selectorWithNavigationExpression
  | selector
  | selectorPart
  | selectorSubPart
  | pseudoClass
  | selectorWithParentheses
  | navigationExpression
  | navigationExpressionIndexer
  | propertyName
  | eventName
  | rule
  | propertyValue
  | propertyValueWithBraces
  | transition
  | transitionArgumentList
  | propertyTrigger
  | propertyTriggerEvaluation
  | eventTrigger
  | eventTriggerArgumentList
  | playStoryboardTriggerAction
  | playSfxTriggerAction
  | setTriggerAction
  | storyboard
  | storyboardTarget
  | animation
  | animationKeyframe
  deriving DecidableEq, Repr

namespace View

def all : List View :=
  [.document, .ruleSet, .block, .selectorWithNavigationExpression, .selector, .selectorPart,
    .selectorSubPart, .pseudoClass, .selectorWithParentheses, .navigationExpression,
    .navigationExpressionIndexer, .propertyName, .eventName, .rule, .propertyValue,
    .propertyValueWithBraces, .transition, .transitionArgumentList, .propertyTrigger,
    .propertyTriggerEvaluation, .eventTrigger, .eventTriggerArgumentList,
    .playStoryboardTriggerAction, .playSfxTriggerAction, .setTriggerAction, .storyboard,
    .storyboardTarget, .animation, .animationKeyframe]

def name : View → String
  | .document => "Document"
  | .ruleSet => "RuleSet"
  | .block => "Block"
  | .selectorWithNavigationExpression => "SelectorWithNavigationExpression"
  | .selector => "Selector"
  | .selectorPart => "SelectorPart"
  | .selectorSubPart => "SelectorSubPart"
  | .pseudoClass => "PseudoClass"
  | .selectorWithParentheses => "SelectorWithParentheses"
  | .navigationExpression => "NavigationExpression"
  | .navigationExpressionIndexer => "NavigationExpressionIndexer"
  | .propertyName => "PropertyName"
  | .eventName => "EventName"
  | .rule => "Rule"
  | .propertyValue => "PropertyValue"
  | .propertyValueWithBraces => "PropertyValueWithBraces"
  | .transition => "Transition"
  | .transitionArgumentList => "TransitionArgumentList"
  | .propertyTrigger => "PropertyTrigger"
  | .propertyTriggerEvaluation => "PropertyTriggerEvaluation"
  | .eventTrigger => "EventTrigger"
  | .eventTriggerArgumentList => "EventTriggerArgumentList"
  | .playStoryboardTriggerAction => "PlayStoryboardTriggerAction"
  | .playSfxTriggerAction => "PlaySfxTriggerAction"
  | .setTriggerAction => "SetTriggerAction"
  | .storyboard => "Storyboard"
  | .storyboardTarget => "StoryboardTarget"
  | .animation => "Animation"
  | .animationKeyframe => "AnimationKeyframe"

/-- The kind of the nodes that a view is for. -/
def kind : View → Kind
  | .document => .document
  | .ruleSet => .ruleSet
  | .block => .block
  | .selectorWithNavigationExpression => .selectorWithNavigationExpression
  | .selector => .selector
  | .selectorPart => .selectorPart
  | .selectorSubPart => .selectorSubPart
  | .pseudoClass => .pseudoClass
  | .selectorWithParentheses => .selectorWithParentheses
  | .navigationExpression => .navigationExpression
  | .navigationExpressionIndexer => .navigationExpressionIndexer
  | .propertyName => .propertyName
  | .eventName => .eventName
  | .rule => .rule
  | .propertyValue => .propertyValue
  | .propertyValueWithBraces => .propertyValueWithBraces
  | .transition => .transition
  | .transitionArgumentList => .transitionArgumentList
  | .propertyTrigger => .propertyTrigger
  | .propertyTriggerEvaluation => .propertyTriggerEvaluation
  | .eventTrigger => .eventTrigger
  | .eventTriggerArgumentList => .eventTriggerArgumentList
  | .playStoryboardTriggerAction => .playStoryboardTriggerAction
  | .playSfxTriggerAction => .playSfxTriggerAction
  | .setTriggerAction => .setTriggerAction
  | .storyboard => .storyboard
  | .storyboardTarget => .storyboardTarget
  | .animation => .animation
  | .animationKeyframe => .animationKeyframe

end View

/-- Views that may stand in the same place. -/
inductive Group where
  | value
  | trigger
  | documentItem
  | ruleSetItem
  | triggerAction
  deriving DecidableEq, Repr

namespace Group

def all : List Group := [.value, .trigger, .documentItem, .ruleSetItem, .triggerAction]

def name : Group → String
  | .value => "Value"
  | .trigger => "Trigger"
  | .documentItem => "DocumentItem"
  | .ruleSetItem => "RuleSetItem"
  | .triggerAction => "TriggerAction"

def views : Group → List View
  | .value => [.propertyValue, .propertyValueWithBraces]
  | .trigger => [.propertyTrigger, .eventTrigger]
  | .documentItem => [.ruleSet, .storyboard, .propertyTrigger, .eventTrigger]
  | .ruleSetItem => [.rule, .transition, .propertyTrigger, .eventTrigger]
  | .triggerAction => [.playStoryboardTriggerAction, .playSfxTriggerAction, .setTriggerAction]

end Group

/-- What a node is looked at as. -/
inductive Target where
  | view (view : View)
  | group (group : Group)
  deriving DecidableEq, Repr

namespace Target

/-- Every target: the views, then the groups. -/
def all : List Target := View.all.map .view ++ Group.all.map .group

def name : Target → String
  | .view v => v.name
  | .group g => g.name

def view? (target : Target) (kind : Kind) : Option View :=
  match target with
  | .view v => if v.kind = kind then some v else none
  | .group g => g.views.find? (·.kind = kind)

/-- The targets under which a node of a kind has a view. -/
def ofKind (kind : Kind) : List Target := all.filter fun target => (target.view? kind).isSome

end Target

/-- How a field is read. -/
inductive Shape where
  /-- The token in a slot. -/
  | token (slot : Nat)
  /-- The tokens of the list in a slot, commas left out. -/
  | tokens (slot : Nat)
  /-- The kinds of all elements of the list in a slot. -/
  | kinds (slot : Nat)
  /-- The view of the node in a slot. -/
  | node (slot : Nat) (target : Target)
  /-- The views of the nodes of the list in a slot. -/
  | nodes (slot : Nat) (target : Target)
  /-- The views of the items of the block in a slot. -/
  | items (slot : Nat) (target : Target)
  /-- The text of the token in a slot; without one it is empty. -/
  | text (slot : Nat)
  /-- Whether the slot holds a token. -/
  | isThere (slot : Nat)
  deriving DecidableEq, Repr

/-- The fields of a view. -/
def View.fields : View → List (String × Shape)
  | .document => [("items", .nodes 0 (.group .documentItem)), ("eof", .token 1)]
  | .ruleSet =>
    [("selectors", .nodes 0 (.view .selectorWithNavigationExpression)),
      ("body", .node 1 (.view .block)), ("items", .items 1 (.group .ruleSetItem))]
  | .block => [("open_brace", .token 0), ("elements", .kinds 1), ("close_brace", .token 2)]
  | .selectorWithNavigationExpression =>
    [("selector", .node 0 (.view .selector)),
      ("navigation_expression", .node 1 (.view .navigationExpression))]
  | .selector => [("components", .kinds 0), ("parts", .nodes 0 (.view .selectorPart))]
  | .selectorPart =>
    [("sub_parts", .nodes 0 (.view .selectorSubPart)),
      ("pseudo_classes", .nodes 0 (.view .pseudoClass))]
  | .selectorSubPart =>
    [("leading_qualifier", .token 0), ("text", .token 1), ("trailing_qualifier", .token 2)]
  | .pseudoClass => [("colon", .token 0), ("class_name", .token 1)]
  | .selectorWithParentheses =>
    [("open_paren", .token 0), ("selector", .node 1 (.view .selector)), ("close_paren", .token 2)]
  | .navigationExpression =>
    [("pipe", .token 0), ("property_name", .node 1 (.view .propertyName)),
      ("indexer", .node 2 (.view .navigationExpressionIndexer)), ("as_keyword", .token 3),
      ("type_name", .token 4)]
  | .navigationExpressionIndexer =>
    [("open_bracket", .token 0), ("index", .token 1), ("close_bracket", .token 2)]
  | .propertyName =>
    [("owner", .token 0), ("period", .token 1), ("name", .token 2), ("text", .text 2),
      ("is_attached", .isThere 0)]
  | .eventName => [("owner", .token 0), ("period", .token 1), ("name", .token 2)]
  | .rule =>
    [("property_name", .node 0 (.view .propertyName)), ("colon", .token 1),
      ("value", .node 2 (.group .value)), ("qualifier", .token 3), ("semicolon", .token 4)]
  | .propertyValue => [("content", .token 0)]
  | .propertyValueWithBraces =>
    [("open_brace", .token 0), ("content", .token 1), ("close_brace", .token 2)]
  | .transition =>
    [("transition_keyword", .token 0), ("arguments", .node 1 (.view .transitionArgumentList)),
      ("colon", .token 2), ("value", .node 3 (.group .value)), ("qualifier", .token 4),
      ("semicolon", .token 5)]
  | .transitionArgumentList | .eventTriggerArgumentList =>
    [("open_paren", .token 0), ("arguments", .tokens 1), ("close_paren", .token 2)]
  | .propertyTrigger =>
    [("trigger_keyword", .token 0), ("property_keyword", .token 1),
      ("evaluations", .nodes 2 (.view .propertyTriggerEvaluation)), ("qualifier", .token 3),
      ("body", .node 4 (.view .block)), ("actions", .items 4 (.group .triggerAction))]
  | .propertyTriggerEvaluation =>
    [("property_name", .node 0 (.view .propertyName)), ("comparison", .token 1),
      ("value", .node 2 (.group .value))]
  | .eventTrigger =>
    [("trigger_keyword", .token 0), ("event_keyword", .token 1),
      ("event_name", .node 2 (.view .eventName)),
      ("arguments", .node 3 (.view .eventTriggerArgumentList)), ("qualifier", .token 4),
      ("body", .node 5 (.view .block)), ("actions", .items 5 (.group .triggerAction))]
  | .playStoryboardTriggerAction =>
    [("keyword", .token 0), ("selector", .node 1 (.view .selectorWithParentheses)),
      ("value", .node 2 (.group .value)), ("semicolon", .token 3)]
  | .playSfxTriggerAction =>
    [("keyword", .token 0), ("value", .node 1 (.group .value)), ("semicolon", .token 2)]
  | .setTriggerAction =>
    [("keyword", .token 0), ("property_name", .node 1 (.view .propertyName)),
      ("selector", .node 2 (.view .selectorWithParentheses)),
      ("value", .node 3 (.group .value)), ("semicolon", .token 4)]
  | .storyboard =>
    [("at_sign", .token 0), ("name", .token 1), ("loop_behavior", .token 2),
      ("body", .node 3 (.view .block)), ("targets", .items 3 (.view .storyboardTarget))]
  | .storyboardTarget =>
    [("target_keyword", .token 0), ("type_name", .token 1),
      ("selector", .node 2 (.view .selectorWithParentheses)), ("body", .node 3 (.view .block)),
      ("animations", .items 3 (.view .animation))]
  | .animation =>
    [("animation_keyword", .token 0), ("property_name", .node 1 (.view .propertyName)),
      ("navigation_expression", .node 2 (.view .navigationExpression)),
      ("body", .node 3 (.view .block)), ("keyframes", .items 3 (.view .animationKeyframe))]
  | .animationKeyframe =>
    [("keyframe_keyword", .token 0), ("time", .token 1), ("easing", .token 2),
      ("value", .node 3 (.view .propertyValueWithBraces))]

end Stylesheet
