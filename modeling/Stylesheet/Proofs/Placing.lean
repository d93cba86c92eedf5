import Stylesheet.Tree.Place

/-!
# Where tokens stand

A token stands where the ones before it end. The places that a walk over a tree finds are those
that a walk over the list of its tokens finds.

Results:
* `Token.located`: tokens one after the other, each with its offset.
* `Tree.map_located_tokenPlaces`: the tokens of a tree stand where the list says.
-/
namespace Stylesheet

namespace Token

/-- Each token with the offset at which it starts, trivia included. -/
def located (offset : Nat) : List Token → List (Nat × Token)
  | [] => []
  | t :: ts => (offset, t) :: located (offset + t.fullWidth) ts

theorem located_append (offset : Nat) (a b : List Token) :
    located offset (a ++ b) = located offset a ++ located (offset + totalWidth a) b := by
  induction a generalizing offset with
  | nil => simp [located, totalWidth]
  | cons t ts ih => simp [located, totalWidth, ih, Nat.add_assoc]

end Token

/-- What a place of a token is, but for the path to it. -/
def Place.located (p : Place) : Nat × Element := (p.position, p.element)

theorem Place.textSpan_of_token {p : Place} {t : Token} (h : p.element = .token t) :
    p.textSpan = Span.ofWidth (p.position + t.leadingWidth) t.width := by
  rw [textSpan, h]

mutual

theorem Tree.map_located_tokenPlaces (path : List Nat) (position : Nat) (e : Tree Kind Token) :
    (e.tokenPlaces path position).map Place.located
      = (Token.located position e.tokens).map (Prod.map id Tree.token) := by
  match e with
  | .token t => rfl
  | .node kind slots => exact Slots.map_located_tokenPlaces path 0 position slots

theorem Slots.map_located_tokenPlaces (path : List Nat) (index position : Nat)
    (s : Slots Kind Token) :
    (s.tokenPlaces path index position).map Place.located
      = (Token.located position s.tokens).map (Prod.map id Tree.token) := by
  match s with
  | .nil => rfl
  | .empty rest => exact Slots.map_located_tokenPlaces path (index + 1) position rest
  | .filled e rest =>
    simp only [Slots.tokenPlaces, Slots.tokens, List.map_append, Token.located_append]
    rw [Tree.map_located_tokenPlaces (path ++ [index]) position e,
      Slots.map_located_tokenPlaces path (index + 1) (position + e.fullWidth) rest,
      Tree.fullWidth_eq_totalWidth]

end

end Stylesheet
