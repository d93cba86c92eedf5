import Stylesheet.Tree.Place
import Stylesheet.View.Schema

/-!
# Reading fields through views

Where a slot does not hold what a field asks for, the field is absent, or its list leaves the
element out: a view reads any tree, well formed or not.
-/
namespace Stylesheet

namespace Place

/-- The token in a slot. Mirrors `token`. -/
def tokenIn? (p : Place) (slot : Nat) : Option Place := (p.child? slot).filter (!·.isNode)

/-- The node in a slot. Mirrors `node`. -/
def nodeIn? (p : Place) (slot : Nat) : Option Place := (p.child? slot).filter (·.isNode)

/-- The elements of the list in a slot. Mirrors `list_elements`. -/
def listIn (p : Place) (slot : Nat) : List Place :=
  match (p.nodeIn? slot).filter (·.kind = .list) with
  | some list => list.children
  | none => []

/-- The tokens of the list in a slot, commas left out. Mirrors `list_tokens`. -/
def tokensIn (p : Place) (slot : Nat) : List Place :=
  (p.listIn slot).filter fun e => !e.isNode && e.kind ≠ .comma

end Place

/-- A node under a view of it. -/
structure Viewed where
  view : View
  place : Place

/-- The view of a node under a target. Mirrors `cast`. -/
def Target.viewed? (target : Target) (p : Place) : Option Viewed :=
  if p.isNode then (target.view? p.kind).map (⟨·, p⟩) else none

/-- What a field holds. -/
inductive FieldValue where
  | token (token : Option Place)
  | tokens (tokens : List Place)
  | kinds (kinds : List Kind)
  | node (node : Option Viewed)
  | nodes (nodes : List Viewed)
  | text (text : String)
  | flag (isSet : Bool)

namespace Viewed

/-- The views of the nodes of the list in a slot. Mirrors `list`. -/
def nodesIn (p : Place) (slot : Nat) (target : Target) : List Viewed :=
  (p.listIn slot).filterMap target.viewed?

/-- Reads a field. -/
def read (tree : SyntaxTree) (v : Viewed) : Shape → FieldValue
  | .token slot => .token (v.place.tokenIn? slot)
  | .tokens slot => .tokens (v.place.tokensIn slot)
  | .kinds slot => .kinds ((v.place.listIn slot).map (·.kind))
  | .node slot target => .node ((v.place.nodeIn? slot).bind target.viewed?)
  | .nodes slot target => .nodes (nodesIn v.place slot target)
  | .items slot target =>
    match (v.place.nodeIn? slot).bind (Target.view .block).viewed? with
    | some body => .nodes (nodesIn body.place 1 target)
    | none => .nodes []
  | .text slot =>
    .text (((v.place.tokenIn? slot).map fun t => tree.textOf t.textSpan).getD "")
  | .isThere slot => .flag (v.place.tokenIn? slot).isSome

/-- The token that is the content of a value, plain or in braces. Mirrors `Value::content`. -/
def content? (v : Viewed) : Option Place :=
  match v.view with
  | .propertyValue => v.place.tokenIn? 0
  | .propertyValueWithBraces => v.place.tokenIn? 1
  | _ => none

end Viewed

end Stylesheet
