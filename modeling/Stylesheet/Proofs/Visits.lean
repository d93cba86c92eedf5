import Stylesheet.Proofs.Extents
import Stylesheet.Proofs.Preorder

/-!
# Walks that visit elements and trivia

`Place.visits` goes through elements and their trivia by a recursion of its own. A walker goes through
elements only, with a stack, and knows no trivia. The pieces of trivia are placed by two running
offsets per token, while the places of tokens are sums of the widths in front of them.

**Tiles.** The two meet in the spans that are visited: pieces of trivia and texts of tokens lie end
to end over the full span of the place. Nothing is left out then, and nothing is visited twice.

Results:
* `Place.visits_eq`: the visits, read off the events.
* `Place.tiles_visits`: what is visited lies end to end.
* `Span.Tiles.slice?`: spans end to end, each of which can be cut out, are cut out as one.
* `Place.visited`: elements, trivia, spans and texts of a walk.
-/
namespace Stylesheet

/-! ## Spans end to end -/

/-- Spans that follow one another without a gap, from an offset to another one. -/
def Span.Tiles (start stop : Nat) : List Span → Prop
  | [] => start = stop
  | s :: rest => s.start = start ∧ Span.Tiles s.stop stop rest

namespace Span.Tiles

variable {start middle stop : Nat} {a b spans : List Span} {text : Text}

theorem append (ha : Tiles start middle a) (hb : Tiles middle stop b) :
    Tiles start stop (a ++ b) := by
  induction a generalizing start with
  | nil =>
    cases ha
    exact hb
  | cons s rest ih => exact ⟨ha.1, ih ha.2⟩

theorem le (h : Tiles start stop spans) : start ≤ stop := by
  induction spans generalizing start with
  | nil => exact Nat.le_of_eq h
  | cons s rest ih =>
    rw [← h.1]
    exact Nat.le_trans s.start_le_stop (ih h.2)

/-- Spans end to end, each of which can be cut out, are cut out as one. -/
theorem slice? {u : Span} (h : Tiles u.start u.stop spans) (hstart : text.isBoundary u.start)
    (hspans : ∀ s ∈ spans, text.Sliceable s) :
    ∃ cuts, spans.mapM text.slice? = some cuts ∧ text.slice? u = some cuts.flatten := by
  induction spans generalizing u with
  | nil =>
    have hstop : text.isBoundary u.stop := (show u.start = u.stop from h) ▸ hstart
    obtain ⟨m, hm⟩ := Text.exists_slice (s := u) ⟨hstart, hstop⟩
    have hwidth : Text.width m = u.stop - u.start := Text.width_of_slice? hm
    have hnone : m = [] := by
      apply Text.eq_nil_of_width
      rw [hwidth, show u.start = u.stop from h, Nat.sub_self]
    exact ⟨[], rfl, by rw [hm, hnone]; rfl⟩
  | cons s rest ih =>
    obtain ⟨hs, hrest⟩ := h
    have hsliceable := hspans s List.mem_cons_self
    obtain ⟨m, hm⟩ := Text.exists_slice hsliceable
    obtain ⟨cuts, hcuts, hflat⟩ := ih (u := ⟨s.stop, u.stop, hrest.le⟩) hrest hsliceable.2
      fun t ht => hspans t (List.mem_cons_of_mem _ ht)
    refine ⟨m :: cuts, ?_, Text.slice?_join hm hflat rfl hs.symm rfl⟩
    rw [List.mapM_cons, hm, hcuts]
    rfl

end Span.Tiles

/-! ## Visits -/

/-- The element that is visited, if it is not a piece of trivia. -/
def Visit.element? : Visit → Option Place
  | .element p => some p
  | .trivia _ => none

/-- The span of a piece of trivia or of a token's text. -/
def Visit.span? : Visit → Option Span
  | .element p => if p.isNode then none else some p.textSpan
  | .trivia t => some t.span

/-- The element that an event comes to. -/
def Event.element? : Event → Option Place
  | .enter p | .token p => some p
  | .leave _ => none

/-- What is visited at an event: a token stands between its trivia, and a node is visited once. -/
def Event.visits : Event → List Visit
  | .enter p => [.element p]
  | .token p => (p.leadingTrivia?.getD []).map .trivia
      ++ .element p :: (p.trailingTrivia?.getD []).map .trivia
  | .leave _ => []

theorem Visit.elements_trivia (ts : List TriviaPlace) :
    (ts.map Visit.trivia).filterMap Visit.element? = [] := by
  rw [List.filterMap_map]
  exact List.filterMap_eq_nil_iff.mpr fun _ _ => rfl

theorem Visit.spans_trivia (ts : List TriviaPlace) :
    (ts.map Visit.trivia).filterMap Visit.span? = ts.map TriviaPlace.span := by
  rw [List.filterMap_map]
  exact congrFun List.filterMap_eq_map ts

theorem Event.elements_visits (event : Event) :
    event.visits.filterMap Visit.element? = event.element?.toList := by
  cases event with
  | enter p => rfl
  | leave p => rfl
  | token p =>
    have hself : Visit.element? (.element p) = some p := rfl
    rw [visits, List.filterMap_append, List.filterMap_cons_some hself, Visit.elements_trivia,
      Visit.elements_trivia]
    rfl

/-- The spans of a token: of its leading trivia, its text and its trailing trivia. -/
def Place.spansOfToken (p : Place) : List Span :=
  (p.leadingTrivia?.getD []).map TriviaPlace.span
    ++ p.textSpan :: (p.trailingTrivia?.getD []).map TriviaPlace.span

mutual

theorem Tree.visits_eq (path : List Nat) (position : Nat) (e : Tree Kind Token) :
    e.visits path position = (e.events path position).flatMap Event.visits := by
  match e with
  | .token t => exact (List.append_nil _).symm
  | .node kind slots =>
    rw [Tree.visits, Slots.visits_eq path 0 position slots, Tree.events, List.flatMap_cons,
      List.flatMap_append]
    exact congrArg (List.cons _) (List.append_nil _).symm

theorem Slots.visits_eq (path : List Nat) (index position : Nat) (s : Slots Kind Token) :
    s.visits path index position = (s.events path index position).flatMap Event.visits := by
  match s with
  | .nil => rfl
  | .empty rest => exact Slots.visits_eq path (index + 1) position rest
  | .filled e rest =>
    rw [Slots.visits, Slots.events, List.flatMap_append, Tree.visits_eq, Slots.visits_eq]

end

mutual

theorem Tree.spans_visits (path : List Nat) (position : Nat) (e : Tree Kind Token) :
    (e.visits path position).filterMap Visit.span?
      = (e.tokenPlaces path position).flatMap Place.spansOfToken := by
  match e with
  | .token t =>
    have hself : Visit.span? (.element ⟨path, position, .token t⟩)
        = some (Place.mk path position (.token t)).textSpan := rfl
    rw [Tree.visits, Place.tokenVisits, List.filterMap_append, List.filterMap_cons_some hself,
      Visit.spans_trivia, Visit.spans_trivia, Tree.tokenPlaces, List.flatMap_singleton]
    rfl
  | .node kind slots => exact Slots.spans_visits path 0 position slots

theorem Slots.spans_visits (path : List Nat) (index position : Nat) (s : Slots Kind Token) :
    (s.visits path index position).filterMap Visit.span?
      = (s.tokenPlaces path index position).flatMap Place.spansOfToken := by
  match s with
  | .nil => rfl
  | .empty rest => exact Slots.spans_visits path (index + 1) position rest
  | .filled e rest =>
    rw [Slots.visits, Slots.tokenPlaces, List.filterMap_append, List.flatMap_append,
      Tree.spans_visits, Slots.spans_visits]

end

/-- Pieces of trivia one after the other. -/
theorem TriviaPlace.tiles_sequence (owner : Place) (position : Nat) (pieces : List Trivia) :
    Span.Tiles position (position + Trivia.totalWidth pieces)
      ((sequence owner position pieces).map span) := by
  induction pieces generalizing position with
  | nil => rfl
  | cons piece rest ih =>
    refine ⟨rfl, ?_⟩
    rw [Trivia.totalWidth, ← Nat.add_assoc]
    exact ih (position + piece.width)

namespace Place

variable {p : Place} {ps : List Place} {start stop : Nat}

theorem visits_eq (p : Place) : p.visits = p.events.flatMap Event.visits :=
  Tree.visits_eq p.path p.position p.element

/-- The trivia of a token and its text lie end to end. -/
theorem tiles_token {t : Token} (hp : p.element = .token t) :
    Span.Tiles p.position p.fullSpan.stop p.spansOfToken := by
  have hleading := TriviaPlace.tiles_sequence p p.position t.leading
  have htrailing := TriviaPlace.tiles_sequence p p.textSpan.stop t.trailing
  have hlead : p.leadingWidth = Trivia.totalWidth t.leading := by rw [leadingWidth, hp]; rfl
  have htrail : p.trailingWidth = Trivia.totalWidth t.trailing := by rw [trailingWidth, hp]; rfl
  rw [← hlead, ← p.start_textSpan] at hleading
  rw [← htrail, p.stop_textSpan] at htrailing
  simp only [spansOfToken, leadingTrivia?, trailingTrivia?, hp]
  exact hleading.append ⟨rfl, htrailing⟩

theorem Contiguous.tiles (h : Contiguous start stop ps) (hps : ∀ p ∈ ps, ∃ t, p.element = .token t) :
    Span.Tiles start stop (ps.flatMap spansOfToken) := by
  induction ps generalizing start with
  | nil => exact h
  | cons p ps ih =>
    obtain ⟨hposition, hrest⟩ := h
    obtain ⟨t, ht⟩ := hps p List.mem_cons_self
    have hfirst := tiles_token ht
    rw [fullSpan, Span.stop_ofWidth, hposition] at hfirst
    rw [List.flatMap_cons]
    exact hfirst.append (ih hrest fun q hq => hps q (List.mem_cons_of_mem _ hq))

/-- What is visited at and below a place lies end to end over its full span. -/
theorem tiles_visits (p : Place) :
    Span.Tiles p.fullSpan.start p.fullSpan.stop (p.visits.filterMap Visit.span?) := by
  rw [visits, Tree.spans_visits]
  exact p.contiguous.tiles fun _ hq => isToken_of_mem hq

theorem elements_visits (p : Place) :
    p.visits.filterMap Visit.element? = p.events.filterMap Event.element? := by
  rw [visits_eq, List.filterMap_flatMap, List.filterMap_eq_flatMap_toList]
  exact congrArg (List.flatMap · p.events) (funext Event.elements_visits)

/-! ## Whole walks -/

/-- The events of a place, as a walker gives them. A token is an event of its own. -/
def preorder (p : Place) : List Event := if p.isNode then (Walker.ofPlace p).rest else [.token p]

theorem preorder_eq (p : Place) : p.preorder = p.events := by
  unfold preorder
  split
  · next hp => exact Walker.run_ofPlace hp
  · next hp => exact (events_of_not_isNode hp).symm

/-- What a walk visits, told by a walker. -/
structure Visited (p : Place) : Prop where
  elements : p.visits.filterMap Visit.element? = p.preorder.filterMap Event.element?
  /-- Tokens stand between their trivia. -/
  visits : p.visits = p.preorder.flatMap Event.visits
  /-- Trivia and texts lie end to end over the full span. -/
  tiles : Span.Tiles p.fullSpan.start p.fullSpan.stop (p.visits.filterMap Visit.span?)

end Place

/-- The texts of what is visited at and below a place, one behind the other. -/
def SyntaxTree.visitedText? (tree : SyntaxTree) (p : Place) : Option Text :=
  ((p.visits.filterMap Visit.span?).mapM tree.slice?).map List.flatten

theorem SyntaxTree.Readable.spans {tree : SyntaxTree} {p : Place} (h : tree.Readable)
    (hp : tree.Has p) : ∀ s ∈ p.visits.filterMap Visit.span?, tree.text.Sliceable s := by
  intro s hs
  rw [Place.visits, Tree.spans_visits] at hs
  obtain ⟨q, hq, hs⟩ := List.mem_flatMap.mp hs
  have hhas := (mem_tokens.mp (hp.tokenPlaces_subset hq)).1
  rcases List.mem_append.mp hs with hs | hs
  · obtain ⟨t, ht, rfl⟩ := List.mem_map.mp hs
    exact h.trivia q hhas t (List.mem_append_left _ ht)
  · rcases List.mem_cons.mp hs with rfl | hs
    · exact h.text q hhas
    · obtain ⟨t, ht, rfl⟩ := List.mem_map.mp hs
      exact h.trivia q hhas t (List.mem_append_right _ ht)

/-- A walk visits the elements that a walker comes to, each token between its trivia, and what it
visits lies end to end. In a parse the texts that are visited make up the full text. -/
theorem Place.visited (p : Place) :
    p.Visited ∧ ∀ text, (parse text).tree.Has p →
      ∃ whole, (parse text).tree.slice? p.fullSpan = some whole ∧
        (parse text).tree.visitedText? p = some whole := by
  refine ⟨⟨?_, ?_, p.tiles_visits⟩, fun text hp => ?_⟩
  · rw [preorder_eq, elements_visits]
  · rw [preorder_eq, visits_eq]
  · have hread := readable_parse text
    obtain ⟨cuts, hcuts, hwhole⟩ := p.tiles_visits.slice? (hread.full p hp).1 (hread.spans hp)
    refine ⟨cuts.flatten, hwhole, ?_⟩
    rw [SyntaxTree.visitedText?]
    exact congrArg (Option.map List.flatten) hcuts

/-- The root of a text with trivia at both ends. -/
theorem Place.visited_small : ∃ p whole, (parse " a { } /**/".toList).tree.Has p ∧
    (parse " a { } /**/".toList).tree.slice? p.fullSpan = some whole ∧
      (parse " a { } /**/".toList).tree.visitedText? p = some whole := by
  have hroot := (parse " a { } /**/".toList).tree.has_root
  obtain ⟨whole, hslice, hvisited⟩ := (Place.visited _).2 _ hroot
  exact ⟨_, whole, hroot, hslice, hvisited⟩

end Stylesheet
