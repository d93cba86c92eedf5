import Stylesheet.Tree.Place

/-!
# Traversals

Two orders in which the elements below a place come up.

* `Place.events`: a node is entered, then what stands in its filled slots comes, then it is left.
* `Walker`: the same events one by one, where the caller may skip the rest of the innermost open
  node after each of them. An open node has a cursor into its slots. `Walker.step_of_next?`: what an
  event does; `Walker.next_size`: each event uses up one of those that are left.
* `Place.visits`: a node, then what stands in its filled slots; a token between its trivia.
-/
namespace Stylesheet

/-- Mirrors `WalkEvent`. -/
inductive Event where
  | enter (node : Place)
  | token (token : Place)
  | leave (node : Place)

mutual

def Tree.events (path : List Nat) (position : Nat) : Tree Kind Token → List Event
  | .token t => [.token ⟨path, position, .token t⟩]
  | .node kind slots =>
    let here : Place := ⟨path, position, .node kind slots⟩
    .enter here :: (slots.events path 0 position ++ [.leave here])

def Slots.events (path : List Nat) (index position : Nat) : Slots Kind Token → List Event
  | .nil => []
  | .empty rest => rest.events path (index + 1) position
  | .filled e rest =>
    e.events (path ++ [index]) position
      ++ rest.events path (index + 1) (position + e.fullWidth)

end

mutual

/-- The number of events of an element. -/
def Tree.eventCount : Tree Kind Token → Nat
  | .token _ => 1
  | .node _ slots => slots.eventCount + 2

def Slots.eventCount : Slots Kind Token → Nat
  | .nil => 0
  | .empty rest => rest.eventCount
  | .filled e rest => e.eventCount + rest.eventCount

end

namespace Place

/-- All events at and below a place. Mirrors `SyntaxNode::preorder`. -/
def events (p : Place) : List Event := p.element.events p.path p.position

/-- The nodes at and below a place. Mirrors `SyntaxNode::descendants`. -/
def descendants (p : Place) : List Place :=
  p.events.filterMap fun
    | .enter node => some node
    | _ => none

/-- The tokens at and below a place. Mirrors `SyntaxNode::descendant_tokens`. -/
def descendantTokens (p : Place) : List Place :=
  p.events.filterMap fun
    | .token token => some token
    | _ => none

end Place

/-! ## One event at a time -/

/-- The first filled slot of a place from a slot on, with what stands in it. -/
def Place.filledFrom? (p : Place) (index : Nat) : Option (Nat × Place) :=
  match _h : p.slots[index]? with
  | none => none
  | some (some child) => some (index, child)
  | some none => p.filledFrom? (index + 1)
termination_by p.slots.length - index
decreasing_by
  have := (List.getElem?_eq_some_iff.mp _h).1
  omega

/-- A node that was entered, with the slot that comes next. -/
structure Frame where
  node : Place
  cursor : Nat

namespace Frame

variable {f : Frame} {index : Nat} {child : Place}

/-- What is still to come of the filled slots of a node. -/
def remaining (f : Frame) : List Place := (f.node.slots.drop f.cursor).filterMap id

theorem remaining_zero (p : Place) : (Frame.mk p 0).remaining = p.children := rfl

theorem remaining_of_none (h : f.node.filledFrom? f.cursor = none) : f.remaining = [] := by
  obtain ⟨p, cursor⟩ := f
  simp only [remaining] at h ⊢
  fun_induction p.filledFrom? cursor with
  | case1 cursor hslot => rw [List.drop_eq_nil_of_le (List.getElem?_eq_none_iff.mp hslot)]; rfl
  | case2 => cases h
  | case3 cursor hslot ih =>
    obtain ⟨hlt, hnone⟩ := List.getElem?_eq_some_iff.mp hslot
    rw [List.drop_eq_getElem_cons hlt, hnone]
    exact ih h

theorem remaining_of_some (h : f.node.filledFrom? f.cursor = some (index, child)) :
    f.remaining = child :: (Frame.mk f.node (index + 1)).remaining := by
  obtain ⟨p, cursor⟩ := f
  simp only [remaining] at h ⊢
  fun_induction p.filledFrom? cursor with
  | case1 => cases h
  | case2 cursor first hslot =>
    cases h
    obtain ⟨hlt, hsome⟩ := List.getElem?_eq_some_iff.mp hslot
    rw [List.drop_eq_getElem_cons hlt, hsome]
    rfl
  | case3 cursor hslot ih =>
    obtain ⟨hlt, hnone⟩ := List.getElem?_eq_some_iff.mp hslot
    rw [List.drop_eq_getElem_cons hlt, hnone]
    exact ih h

end Frame

/-- A traversal under way: the place it has yet to start at, and the open nodes, innermost first.
Mirrors `Preorder`. -/
structure Walker where
  start : Option Place
  frames : List Frame

namespace Walker

/-- Mirrors `Preorder::new`. -/
def ofPlace (p : Place) : Walker := ⟨some p, []⟩

/-- Mirrors `Preorder::next`. -/
def next? (w : Walker) : Option (Event × Walker) :=
  match w.frames with
  | [] => w.start.map fun p => (.enter p, ⟨none, [⟨p, 0⟩]⟩)
  | f :: below =>
    match f.node.filledFrom? f.cursor with
    | none => some (.leave f.node, { w with frames := below })
    | some (index, child) =>
      let here := { f with cursor := index + 1 } :: below
      if child.isNode then some (.enter child, { w with frames := ⟨child, 0⟩ :: here })
      else some (.token child, { w with frames := here })

/-- Gives up the rest of the innermost open node. Mirrors `Preorder::skip_subtree`. -/
def skip (w : Walker) : Walker := { w with frames := w.frames.tail }

/-- What an event does to a walker. -/
inductive Step : Walker → Event → Walker → Prop where
  | start (p : Place) : Step ⟨some p, []⟩ (.enter p) ⟨none, [⟨p, 0⟩]⟩
  | leave (start : Option Place) (f : Frame) (below : List Frame) (hend : f.remaining = []) :
    Step ⟨start, f :: below⟩ (.leave f.node) ⟨start, below⟩
  | enter (start : Option Place) (node child : Place) (cursor index : Nat) (below : List Frame)
    (hchild : (Frame.mk node cursor).remaining = child :: (Frame.mk node index).remaining)
    (hnode : child.isNode) :
    Step ⟨start, ⟨node, cursor⟩ :: below⟩ (.enter child) ⟨start, ⟨child, 0⟩ :: ⟨node, index⟩ :: below⟩
  | token (start : Option Place) (node child : Place) (cursor index : Nat) (below : List Frame)
    (hchild : (Frame.mk node cursor).remaining = child :: (Frame.mk node index).remaining)
    (htoken : ¬ child.isNode) :
    Step ⟨start, ⟨node, cursor⟩ :: below⟩ (.token child) ⟨start, ⟨node, index⟩ :: below⟩

theorem step_of_next? {w w' : Walker} {event : Event} (h : w.next? = some (event, w')) :
    w.Step event w' := by
  obtain ⟨start, frames⟩ := w
  cases frames with
  | nil =>
    obtain ⟨p, rfl, hp⟩ := Option.map_eq_some_iff.mp h
    cases hp
    exact .start p
  | cons f below =>
    simp only [next?] at h
    split at h
    · next hslot =>
      cases h
      exact .leave start f below (Frame.remaining_of_none hslot)
    · next index child hslot =>
      have hchild := Frame.remaining_of_some hslot
      split at h
      · next hnode =>
        cases h
        exact .enter start f.node child f.cursor (index + 1) below hchild hnode
      · next htoken =>
        cases h
        exact .token start f.node child f.cursor (index + 1) below hchild htoken

/-- The events of several places together. -/
def countOf : List Place → Nat
  | [] => 0
  | p :: rest => p.element.eventCount + countOf rest

/-- The number of events that open nodes still have in them, leaving them included. -/
def openSize : List Frame → Nat
  | [] => 0
  | f :: below => countOf f.remaining + 1 + openSize below

/-- The number of events left when nothing is skipped; the start counts only while no node is
open. -/
def size (w : Walker) : Nat :=
  ((w.start.map fun p => p.element.slots.eventCount + 2).getD 0) + openSize w.frames

theorem countOf_places (path : List Nat) : ∀ (index position : Nat) (s : Slots Kind Token),
    countOf ((s.places path index position).filterMap id) = s.eventCount
  | _, _, .nil => rfl
  | index, position, .empty rest => countOf_places path (index + 1) position rest
  | index, position, .filled e rest =>
    congrArg (e.eventCount + ·)
      (countOf_places path (index + 1) (position + e.fullWidth) rest)

theorem countOf_children (p : Place) : countOf p.children = p.element.slots.eventCount :=
  countOf_places ..

theorem eventCount_of_isNode {p : Place} (h : p.isNode) :
    p.element.eventCount = p.element.slots.eventCount + 2 := by
  obtain ⟨_, _, e⟩ := p
  cases e with
  | token _ => simp [Place.isNode, Tree.isNode] at h
  | node _ _ => rfl

theorem eventCount_of_not_isNode {p : Place} (h : ¬ p.isNode) : p.element.eventCount = 1 := by
  obtain ⟨_, _, e⟩ := p
  cases e with
  | token _ => rfl
  | node _ _ => exact absurd rfl h

theorem next_size {w w' : Walker} {e : Event} (h : w.next? = some (e, w')) :
    w'.size + 1 = w.size := by
  cases step_of_next? h with
  | start p => simp [size, openSize, Frame.remaining_zero, countOf_children]
  | leave start f below hend =>
    simp only [size, openSize, hend, countOf]
    omega
  | enter start node child cursor index below hchild hnode =>
    have := eventCount_of_isNode hnode
    have := countOf_children child
    simp only [size, openSize, hchild, Frame.remaining_zero, countOf]
    omega
  | token start node child cursor index below hchild htoken =>
    have := eventCount_of_not_isNode htoken
    simp only [size, openSize, hchild, countOf]
    omega

theorem skip_size_le (w : Walker) : w.skip.size ≤ w.size := by
  obtain ⟨start, frames⟩ := w
  cases frames with
  | nil => simp [skip]
  | cons f below => simp [skip, size, openSize]

/-- The events that come up when the walk skips right after those whose numbers `skips` holds for,
the next one being number `n`. -/
def run (skips : Nat → Bool) (n : Nat) (w : Walker) : List Event :=
  match h : w.next? with
  | none => []
  | some (event, after) =>
    have := next_size h
    have := skip_size_le after
    event :: run skips (n + 1) (if skips n then after.skip else after)
termination_by w.size
decreasing_by split <;> omega

end Walker

/-! ## Elements and their trivia -/

/-- Mirrors `Visitor`. -/
inductive Visit where
  | element (place : Place)
  | trivia (place : TriviaPlace)

/-- A token between its trivia. -/
def Place.tokenVisits (p : Place) (t : Token) : List Visit :=
  (TriviaPlace.sequence p p.position t.leading).map .trivia
    ++ .element p :: (TriviaPlace.sequence p p.textSpan.stop t.trailing).map .trivia

mutual

def Tree.visits (path : List Nat) (position : Nat) : Tree Kind Token → List Visit
  | .token t => Place.tokenVisits ⟨path, position, .token t⟩ t
  | .node kind slots =>
    .element ⟨path, position, .node kind slots⟩ :: slots.visits path 0 position

def Slots.visits (path : List Nat) (index position : Nat) : Slots Kind Token → List Visit
  | .nil => []
  | .empty rest => rest.visits path (index + 1) position
  | .filled e rest =>
    e.visits (path ++ [index]) position
      ++ rest.visits path (index + 1) (position + e.fullWidth)

end

/-- Everything at and below a place, each piece of trivia once. Mirrors `walk`. -/
def Place.visits (p : Place) : List Visit := p.element.visits p.path p.position

end Stylesheet
