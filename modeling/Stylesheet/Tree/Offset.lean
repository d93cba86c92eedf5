import Stylesheet.Tree.Place

/-!
# Tokens at an offset

The tokens whose full span has an offset inside or at one of its ends: none, one, or the two on
both sides of the border at which the offset lies. Tokens without width are never among them.
-/
namespace Stylesheet

/-- Mirrors `TokenAtOffset`. -/
inductive TokenAtOffset where
  | none
  | single (token : Place)
  | between (left right : Place)

namespace TokenAtOffset

def toList : TokenAtOffset → List Place
  | .none => []
  | .single t => [t]
  | .between left right => [left, right]

/-- The token, or the left one of two. Mirrors `TokenAtOffset::left_biased`. -/
def leftBiased (t : TokenAtOffset) : Option Place := t.toList.head?

/-- The token, or the right one of two. Mirrors `TokenAtOffset::right_biased`. -/
def rightBiased (t : TokenAtOffset) : Option Place := t.toList.getLast?

end TokenAtOffset

/-- The first index at which a test fails, from `low` on, or `high` if it does not fail before. What
is left is halved each time, so a test that fails has to fail further on as well. Mirrors
`partition_point`. -/
def bisect (test : Nat → Bool) (low high : Nat) : Nat :=
  if low < high then
    let middle := (low + high) / 2
    if test middle then bisect test (middle + 1) high else bisect test low middle
  else low
termination_by high - low

namespace SyntaxTree

/-- The tokens at an offset. Those that end up to it come before those that end after it: of the
first the last one with width counts, of the second the first one, if it starts early enough.
Mirrors `SyntaxTree::token_at_offset`. -/
def tokenAtOffset (tree : SyntaxTree) (offset : Nat) : TokenAtOffset :=
  let tokens := tree.tokens.toArray
  let border := bisect (fun i => tokens[i]?.any (·.fullSpan.stop ≤ offset)) 0 tokens.size
  let previous := (tokens.toList.take border).reverse.find? (·.fullWidth ≠ 0)
  let current := tokens[border]?.filter (·.position ≤ offset)
  match previous, current with
  | some left, some right =>
    if right.position = offset then .between left right else .single right
  | none, some token => .single token
  | some left, none => if left.fullSpan.stop = offset then .single left else .none
  | none, none => .none

end SyntaxTree

end Stylesheet
