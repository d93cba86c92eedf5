import Stylesheet.Proofs.Places

/-!
# Traversals with skips

A walker has a stack of open nodes, each with a cursor into its slots, and gives one event at a time.
`Place.events` is a recursion without a stack. A caller may ask a walker for the next event, or to
skip the rest of the innermost open node, as often as it wants and in any order.

**Tour.** What a walker should do is said on lists. A tour has the events that are left, and the open
nodes: those that were entered, and neither left nor skipped. A skip drops what is left up to the
event that leaves the innermost open node, and nothing where no node is open.

**Invariant (`Walker.Follows`).** The events left to a walker are those of the places behind its
cursors, each frame followed by the event that leaves its node. The places of a frame are below its
node, so nothing among their events leaves the node.

Results:
* `Walker.pending_of_next?`, `Walker.pending_skip`: what one request uses up.
* `Walker.follows_next?`, `Walker.follows_skip`: the invariant is kept by each request.
* `Walker.run_ofPlace`: without skips a walker gives the events of the recursion.
* `Place.walked`: whatever is asked, a walker answers as the tour does.
-/
namespace Stylesheet

/-! ## Events of places -/

theorem Slots.events_eq_flatMap (path : List Nat) (index position : Nat) (s : Slots Kind Token) :
    s.events path index position
      = ((s.places path index position).filterMap id).flatMap Place.events := by
  cases s with
  | nil => rfl
  | empty rest => exact Slots.events_eq_flatMap path (index + 1) position rest
  | filled e rest =>
    rw [Slots.events, Slots.events_eq_flatMap path (index + 1) (position + e.fullWidth) rest]
    rfl

/-- Whether an event leaves a node. -/
def Event.leaves (node : Place) : Event → Bool
  | .leave p => p.path = node.path
  | _ => false

/-- No event below a node leaves the node. -/
theorem Place.not_leaves {p q : Place} (hq : q ∈ p.children) :
    ∀ event ∈ q.events, ¬ event.leaves p := by
  intro event hevent hleaves
  have hbelow : event ∈ p.element.slots.events p.path 0 p.position := by
    rw [Slots.events_eq_flatMap]
    exact List.mem_flatMap_of_mem hq hevent
  obtain ⟨i, -, hi⟩ := Slots.prefix_of_mem_events _ _ _ _ hbelow
  have hlength := hi.length_le
  cases event with
  | enter | token => cases hleaves
  | leave r =>
    rw [Event.place, show r.path = p.path from of_decide_eq_true hleaves, List.length_append,
      List.length_singleton] at hlength
    omega

/-! ## Requests -/

/-- What a caller may ask for. -/
inductive Request where
  | next
  | skip

/-- Something that can be asked for events. -/
structure EventSource (σ : Type) where
  next? : σ → Option (Event × σ)
  skip : σ → σ

namespace EventSource

variable {σ τ : Type}

/-- The state after some requests. Where no event is left, asking for one changes nothing. -/
def after (source : EventSource σ) (s : σ) : List Request → σ
  | [] => s
  | .next :: more =>
    match source.next? s with
    | some (_, s') => source.after s' more
    | none => source.after s more
  | .skip :: more => source.after (source.skip s) more

/-- The answers to the requests for events. -/
def answers (source : EventSource σ) (s : σ) : List Request → List (Option Event)
  | [] => []
  | .next :: more =>
    match source.next? s with
    | some (event, s') => some event :: source.answers s' more
    | none => none :: source.answers s more
  | .skip :: more => source.answers (source.skip s) more

/-- Whether a relation between states is kept by both requests, with the same answers. -/
structure Simulates (source : EventSource σ) (other : EventSource τ) (R : σ → τ → Prop) : Prop where
  ends : ∀ s t, R s t → source.next? s = none → other.next? t = none
  next : ∀ s t event s', R s t → source.next? s = some (event, s') →
    ∃ t', other.next? t = some (event, t') ∧ R s' t'
  skip : ∀ s t, R s t → R (source.skip s) (other.skip t)

/-- What simulates step by step gives the same answers to all requests. -/
theorem Simulates.run {source : EventSource σ} {other : EventSource τ} {R : σ → τ → Prop}
    (h : source.Simulates other R) {s : σ} {t : τ} (hR : R s t) (requests : List Request) :
    source.answers s requests = other.answers t requests ∧
      R (source.after s requests) (other.after t requests) := by
  induction requests generalizing s t with
  | nil => exact ⟨rfl, hR⟩
  | cons request more ih =>
    cases request with
    | skip => exact ih (h.skip s t hR)
    | next =>
      cases hnext : source.next? s with
      | none =>
        obtain ⟨hanswers, hafter⟩ := ih hR
        simp only [answers, after, hnext, h.ends s t hR hnext, hanswers]
        exact ⟨trivial, hafter⟩
      | some result =>
        obtain ⟨event, s'⟩ := result
        obtain ⟨t', hnext', hR'⟩ := h.next s t event s' hR hnext
        obtain ⟨hanswers, hafter⟩ := ih hR'
        simp only [answers, after, hnext, hnext', hanswers]
        exact ⟨trivial, hafter⟩

end EventSource

/-! ## Tours -/

/-- The events that are left, and the open nodes, innermost first. -/
structure Tour where
  remaining : List Event
  opened : List Place

namespace Tour

def ofPlace (p : Place) : Tour := ⟨p.events, []⟩

/-- The events behind the one that leaves a node. -/
def behind (node : Place) (events : List Event) : List Event :=
  (events.dropWhile (!·.leaves node)).tail

def next? (t : Tour) : Option (Event × Tour) :=
  match t.remaining with
  | [] => none
  | .enter p :: rest => some (.enter p, ⟨rest, p :: t.opened⟩)
  | .token p :: rest => some (.token p, ⟨rest, t.opened⟩)
  | .leave p :: rest => some (.leave p, ⟨rest, t.opened.tail⟩)

def skip (t : Tour) : Tour :=
  match t.opened with
  | [] => t
  | node :: outer => ⟨behind node t.remaining, outer⟩

def source : EventSource Tour := ⟨next?, skip⟩

theorem behind_append {node : Place} {events more : List Event}
    (h : ∀ event ∈ events, ¬ event.leaves node) :
    behind node (events ++ .leave node :: more) = more := by
  have hdrop : (events ++ .leave node :: more).dropWhile (!·.leaves node) = .leave node :: more := by
    rw [List.dropWhile_append_of_pos (by simpa using h)]
    exact List.dropWhile_cons_of_neg (by simp [Event.leaves])
  rw [behind, hdrop]
  rfl

end Tour

/-! ## Walkers -/

/-- The events that are left of an open node. -/
def Frame.pending (f : Frame) : List Event := f.remaining.flatMap Place.events ++ [.leave f.node]

/-- The events of a node: it is entered, and then it is open. -/
theorem Place.events_of_isNode {p : Place} (hp : p.isNode) :
    p.events = .enter p :: (Frame.mk p 0).pending := by
  obtain ⟨path, position, e⟩ := p
  cases e with
  | token t => cases hp
  | node kind slots =>
    rw [events, Tree.events, Slots.events_eq_flatMap]
    rfl

theorem Place.events_of_not_isNode {p : Place} (hp : ¬ p.isNode) : p.events = [.token p] := by
  obtain ⟨path, position, e⟩ := p
  cases e with
  | token t => rfl
  | node kind slots => exact absurd rfl hp

theorem Frame.remaining_subset (f : Frame) : f.remaining ⊆ f.node.children :=
  ((List.drop_sublist f.cursor f.node.slots).filterMap id).subset

/-- What is left of an open node does not leave it but with the last event. -/
theorem Frame.not_leaves (f : Frame) :
    ∀ event ∈ f.remaining.flatMap Place.events, ¬ event.leaves f.node := by
  intro event hevent
  obtain ⟨q, hq, hevent⟩ := List.mem_flatMap.mp hevent
  exact Place.not_leaves (f.remaining_subset hq) event hevent

namespace Walker

variable {w w' : Walker} {t : Tour} {p : Place} {event : Event}

def source : EventSource Walker := ⟨next?, skip⟩

/-- The events that come up if nothing more is skipped. -/
def rest (w : Walker) : List Event := w.run (fun _ => false) 0

/-- The events left to a walker, read off its frames and its start. -/
def pending (w : Walker) : List Event :=
  w.frames.flatMap Frame.pending
    ++ (w.start.map fun p => Event.enter p :: (Frame.mk p 0).pending).getD []

/-! ### One request -/

/-- A walker ends where it has no place to start at and no open node. -/
theorem eq_of_none (h : w.next? = none) : w = ⟨none, []⟩ := by
  obtain ⟨start, frames⟩ := w
  cases frames with
  | nil => rw [show start = none from Option.map_eq_none_iff.mp h]
  | cons f below =>
    simp only [next?] at h
    split at h
    · cases h
    · split at h <;> cases h

/-- An event is the first of those that are left. -/
theorem pending_of_next? (h : w.next? = some (event, w')) : w.pending = event :: w'.pending := by
  cases step_of_next? h with
  | start p => simp [pending]
  | leave start f below hend => simp [pending, Frame.pending, hend]
  | enter start node child cursor index below hchild hnode =>
    simp [pending, Frame.pending, hchild, child.events_of_isNode hnode]
  | token start node child cursor index below hchild htoken =>
    simp [pending, Frame.pending, hchild, child.events_of_not_isNode htoken]

/-- A skip uses up what is left of the innermost open node. -/
theorem pending_skip {f : Frame} {below : List Frame} (h : w.frames = f :: below) :
    w.pending = f.pending ++ w.skip.pending := by
  rw [pending, pending, skip, h, List.flatMap_cons, List.append_assoc]
  rfl

/-! ### The invariant -/

/-- A tour has the events that are left to a walker, and the nodes of its frames. -/
structure Follows (w : Walker) (t : Tour) : Prop where
  remaining : t.remaining = w.pending
  opened : t.opened = w.frames.map Frame.node
  start : ∀ p ∈ w.start, p.isNode

theorem follows_ofPlace (hp : p.isNode) : (ofPlace p).Follows (.ofPlace p) where
  remaining := p.events_of_isNode hp
  opened := rfl
  start := by
    rintro _ ⟨⟩
    exact hp

theorem follows_next? (h : w.Follows t) (hnext : w.next? = some (event, w')) :
    ∃ t', t.next? = some (event, t') ∧ w'.Follows t' := by
  obtain ⟨hremaining, hopened, hstart⟩ := h
  rw [pending_of_next? hnext] at hremaining
  simp only [Tour.next?, hremaining]
  cases step_of_next? hnext with
  | start => exact ⟨_, rfl, rfl, by rw [hopened]; rfl, nofun⟩
  | leave | enter | token => exact ⟨_, rfl, rfl, by rw [hopened]; rfl, hstart⟩

theorem follows_skip (h : w.Follows t) : w.skip.Follows t.skip := by
  obtain ⟨hremaining, hopened, hstart⟩ := h
  obtain ⟨start, frames⟩ := w
  cases frames with
  | nil =>
    rw [Tour.skip, hopened]
    exact ⟨hremaining, hopened, hstart⟩
  | cons f below =>
    have hbehind : Tour.behind f.node t.remaining = (skip ⟨start, f :: below⟩).pending := by
      rw [hremaining, pending_skip rfl, Frame.pending, List.append_assoc]
      exact Tour.behind_append f.not_leaves
    rw [Tour.skip, hopened]
    exact ⟨hbehind, rfl, hstart⟩

theorem simulates : source.Simulates Tour.source Follows where
  ends w t h hnext := by
    have hremaining := h.remaining
    rw [eq_of_none hnext] at hremaining
    show t.next? = none
    rw [Tour.next?, hremaining]
    rfl
  next _ _ _ _ h hnext := follows_next? h hnext
  skip _ _ h := follows_skip h

/-! ### No more skips -/

/-- Without skips, all events that are left come up. -/
theorem run_eq_pending (w : Walker) (n : Nat) : w.run (fun _ => false) n = w.pending := by
  fun_induction run (fun _ => false) n w with
  | case1 n w hnext =>
    rw [eq_of_none hnext]
    rfl
  | case2 n w event after hnext _ _ ih =>
    rw [pending_of_next? hnext]
    exact congrArg _ ih

theorem rest_eq_pending (w : Walker) : w.rest = w.pending := w.run_eq_pending 0

/-- Without skips a walker gives the events of the recursion. -/
theorem run_ofPlace (hp : p.isNode) : (ofPlace p).run (fun _ => false) 0 = p.events := by
  rw [run_eq_pending, p.events_of_isNode hp]
  rfl

/-- Where no event is left, no request brings one back. -/
theorem answers_of_none (h : w.next? = none) (requests : List Request) :
    ∀ answer ∈ source.answers w requests, answer = none := by
  obtain rfl := eq_of_none h
  induction requests with
  | nil => exact nofun
  | cons request more ih =>
    cases request with
    | skip => exact ih
    | next => exact List.forall_mem_cons.mpr ⟨rfl, ih⟩

/-- What is left of a node that was just entered are all events of the node but the first. -/
theorem pending_entered {node : Place} (h : w.Follows t)
    (hnext : w.next? = some (.enter node, w')) : w.pending = node.events ++ w'.skip.pending := by
  rw [pending_of_next? hnext]
  cases step_of_next? hnext with
  | start =>
    rw [node.events_of_isNode (h.start node rfl), pending_skip rfl]
    rfl
  | enter start p child cursor index below hchild hnode =>
    rw [node.events_of_isNode hnode, pending_skip rfl]
    rfl

/-- What a walker does next is told by a tour. -/
structure Obeys (w : Walker) (t : Tour) : Prop where
  rest : w.rest = t.remaining
  /-- Where no event is left, no request brings one back. -/
  ends : w.next? = none → ∀ requests, ∀ answer ∈ source.answers w requests, answer = none
  /-- Where no node is open, a skip takes nothing away. -/
  closed : t.opened = [] → w.skip = w
  /-- A skip takes away what is left up to the event that leaves the innermost open node. -/
  skips : ∀ node outer, t.opened = node :: outer →
    ∃ passed, w.rest = passed ++ .leave node :: w.skip.rest ∧
      ∀ event ∈ passed, ¬ event.leaves node
  /-- A skip right behind the event that enters a node takes away all else of the node. -/
  entered : ∀ node w', w.next? = some (.enter node, w') → w.rest = node.events ++ w'.skip.rest

theorem Follows.obeys (h : w.Follows t) : w.Obeys t where
  rest := w.rest_eq_pending.trans h.remaining.symm
  ends := answers_of_none
  closed hnone := by
    rw [h.opened, List.map_eq_nil_iff] at hnone
    rw [skip, hnone]
    exact congrArg _ hnone.symm
  skips node outer hopened := by
    rw [h.opened] at hopened
    obtain ⟨f, below, hframes, rfl, -⟩ := List.map_eq_cons_iff.mp hopened
    refine ⟨f.remaining.flatMap Place.events, ?_, f.not_leaves⟩
    rw [rest_eq_pending, rest_eq_pending, pending_skip hframes, Frame.pending, List.append_assoc]
    rfl
  entered node w' hnext := by
    rw [rest_eq_pending, rest_eq_pending, pending_entered h hnext]

end Walker

/-! ## Places -/

/-- The walker of a place does what the tour of the place does, whatever is asked. -/
structure Place.Walked (p : Place) : Prop where
  whole : (Walker.ofPlace p).rest = p.events
  answers : ∀ requests, Walker.source.answers (.ofPlace p) requests
    = Tour.source.answers (.ofPlace p) requests
  obeys : ∀ requests,
    (Walker.source.after (.ofPlace p) requests).Obeys (Tour.source.after (.ofPlace p) requests)

/-- Whatever is asked, the walker of a node answers as the tour does. -/
theorem Place.walked (p : Place) (hp : p.isNode) : p.Walked where
  whole := Walker.run_ofPlace hp
  answers requests := (Walker.simulates.run (Walker.follows_ofPlace hp) requests).1
  obeys requests := (Walker.simulates.run (Walker.follows_ofPlace hp) requests).2.obeys

/-- A block whose first slot is empty. -/
theorem Place.walked_small : ∃ p : Place, p.slots.head? = some none ∧ p.isNode ∧ p.Walked :=
  ⟨⟨[], 0, .node .block (.empty (.filled (.token (.missing .rightBrace)) .nil))⟩, rfl, rfl,
    Place.walked _ rfl⟩

end Stylesheet
