import Mathlib.Algebra.GroupWithZero.Nat
import Mathlib.Data.List.Induction
import Mathlib.Data.List.ReduceOption
import Stylesheet.Proofs.Placing
import Stylesheet.Tree.Traversal

/-!
# Places hang together

A place is found again by its path, so what is below a place can be read off the paths: the path of
what stands in a slot ends in the slot.

**Order.** `SyntaxTree.tokens` is written as a recursion over the tree, and `Place.descendantTokens`
picks the tokens out of the events of a walk. Both meet the same tokens in the same order, and each
starts where the one before it ends.

Results:
* `SyntaxTree.Has`: the places of a tree.
* `Tree.tokens_events`: the tokens of a walk.
* `Tree.contiguous`: tokens one after the other.
* `SyntaxTree.mem_tokens`: the tokens of a tree are its places that are no nodes.
-/
namespace Stylesheet

/-! ## Slots -/

namespace Slots

variable {path : List Nat} {q : Place}

/-- The path of what stands in slot `i` ends in the slot. -/
theorem path_of_places (s : Slots Kind Token) (index position i : Nat)
    (h : (s.places path index position)[i]? = some (some q)) : q.path = path ++ [index + i] := by
  match s, i with
  | .nil, i => simp [places] at h
  | .empty _, 0 => simp [places] at h
  | .filled e rest, 0 =>
    simp only [places, List.getElem?_cons_zero, Option.some.injEq] at h
    subst h
    rfl
  | .empty rest, i + 1 =>
    rw [places, List.getElem?_cons_succ] at h
    rw [rest.path_of_places (index + 1) position i h, Nat.add_right_comm, Nat.add_assoc]
  | .filled e rest, i + 1 =>
    rw [places, List.getElem?_cons_succ] at h
    rw [rest.path_of_places (index + 1) (position + e.fullWidth) i h, Nat.add_right_comm,
      Nat.add_assoc]

/-- The tokens below what stands in a slot are a run of those below all slots. -/
theorem tokenPlaces_infix (s : Slots Kind Token) (index position : Nat)
    (h : some q ∈ s.places path index position) :
    q.element.tokenPlaces q.path q.position <:+: s.tokenPlaces path index position := by
  match s with
  | .nil => simp [places] at h
  | .empty rest =>
    rw [places, List.mem_cons] at h
    exact rest.tokenPlaces_infix (index + 1) position (h.resolve_left (by simp))
  | .filled e rest =>
    rw [places, List.mem_cons] at h
    rw [tokenPlaces]
    rcases h with h | h
    · cases h
      exact (List.prefix_append _ _).isInfix
    · exact (rest.tokenPlaces_infix (index + 1) (position + e.fullWidth) h).trans
        (List.suffix_append _ _).isInfix

end Slots

/-! ## Tokens one after the other -/

/-- Places that follow one another without a gap, from an offset to another one. -/
def Place.Contiguous (start stop : Nat) : List Place → Prop
  | [] => start = stop
  | p :: rest => p.position = start ∧ Place.Contiguous (start + p.fullWidth) stop rest

theorem Place.Contiguous.append {a b : List Place} {start middle stop : Nat}
    (ha : Place.Contiguous start middle a) (hb : Place.Contiguous middle stop b) :
    Place.Contiguous start stop (a ++ b) := by
  induction a generalizing start with
  | nil =>
    cases ha
    exact hb
  | cons p rest ih => exact ⟨ha.1, ih ha.2⟩

mutual

theorem Tree.contiguous (path : List Nat) (position : Nat) (e : Tree Kind Token) :
    Place.Contiguous position (position + e.fullWidth) (e.tokenPlaces path position) := by
  match e with
  | .token t => exact ⟨rfl, rfl⟩
  | .node kind slots => exact Slots.contiguous path 0 position slots

theorem Slots.contiguous (path : List Nat) (index position : Nat) (s : Slots Kind Token) :
    Place.Contiguous position (position + s.fullWidth) (s.tokenPlaces path index position) := by
  match s with
  | .nil => rfl
  | .empty rest => exact Slots.contiguous path (index + 1) position rest
  | .filled e rest =>
    have hfirst := Tree.contiguous (path ++ [index]) position e
    have hrest := Slots.contiguous path (index + 1) (position + e.fullWidth) rest
    rw [Nat.add_assoc] at hrest
    exact hfirst.append hrest

end

/-! ## Events -/

/-- The token of an event, if it is the event of a token. -/
def Event.token? : Event → Option Place
  | .token p => some p
  | _ => none

mutual

theorem Tree.tokens_events (path : List Nat) (position : Nat) (e : Tree Kind Token) :
    (e.events path position).filterMap Event.token? = e.tokenPlaces path position := by
  match e with
  | .token t => rfl
  | .node kind slots =>
    have hslots := Slots.tokens_events path 0 position slots
    rw [Tree.events, List.filterMap_cons_none rfl, List.filterMap_append, hslots]
    exact List.append_nil _

theorem Slots.tokens_events (path : List Nat) (index position : Nat) (s : Slots Kind Token) :
    (s.events path index position).filterMap Event.token?
      = s.tokenPlaces path index position := by
  match s with
  | .nil => rfl
  | .empty rest => exact Slots.tokens_events path (index + 1) position rest
  | .filled e rest =>
    rw [Slots.events, List.filterMap_append, Tree.tokens_events, Slots.tokens_events,
      Slots.tokenPlaces]

end

/-- The place that an event is at. -/
def Event.place : Event → Place
  | .enter p | .token p | .leave p => p

mutual

/-- The events of an element are at the element and below it. -/
theorem Tree.prefix_of_mem_events {event : Event} (path : List Nat) (position : Nat)
    (e : Tree Kind Token) (h : event ∈ e.events path position) : path <+: event.place.path := by
  match e with
  | .token t =>
    cases List.mem_singleton.mp h
    exact List.prefix_refl path
  | .node kind slots =>
    rw [Tree.events, List.mem_cons, List.mem_append, List.mem_singleton] at h
    rcases h with rfl | h | rfl
    · exact List.prefix_refl path
    · obtain ⟨i, -, hi⟩ := Slots.prefix_of_mem_events path 0 position slots h
      exact (List.prefix_append path [i]).trans hi
    · exact List.prefix_refl path

theorem Slots.prefix_of_mem_events {event : Event} (path : List Nat) (index position : Nat)
    (s : Slots Kind Token) (h : event ∈ s.events path index position) :
    ∃ i, index ≤ i ∧ path ++ [i] <+: event.place.path := by
  match s with
  | .nil => simp [Slots.events] at h
  | .empty rest =>
    obtain ⟨i, hi, hpath⟩ := Slots.prefix_of_mem_events path (index + 1) position rest h
    exact ⟨i, by omega, hpath⟩
  | .filled e rest =>
    rw [Slots.events, List.mem_append] at h
    rcases h with h | h
    · exact ⟨index, Nat.le_refl _, Tree.prefix_of_mem_events _ _ e h⟩
    · obtain ⟨i, hi, hpath⟩ := Slots.prefix_of_mem_events path (index + 1) _ rest h
      exact ⟨i, by omega, hpath⟩

end

/-! ## Paths of tokens -/

theorem Event.mem_of_token? {p : Place} {events : List Event}
    (h : p ∈ events.filterMap Event.token?) : Event.token p ∈ events := by
  obtain ⟨event, hevent, htoken⟩ := List.mem_filterMap.mp h
  cases event with
  | token q =>
    cases htoken
    exact hevent
  | enter | leave => cases htoken

theorem Tree.prefix_of_mem_tokenPlaces {p : Place} (path : List Nat) (position : Nat)
    (e : Tree Kind Token) (h : p ∈ e.tokenPlaces path position) : path <+: p.path := by
  rw [← Tree.tokens_events] at h
  exact Tree.prefix_of_mem_events path position e (Event.mem_of_token? h)

/-! ## The places of a tree -/

namespace SyntaxTree

variable {tree : SyntaxTree} {p q : Place} {path : List Nat} {i : Nat}

/-- A place of a tree is found by its own path. -/
def Has (tree : SyntaxTree) (p : Place) : Prop := tree.at? p.path = some p

/-- The node whose slots hold a place; the root has none. -/
def parent? (tree : SyntaxTree) (p : Place) : Option Place :=
  if p.path = [] then none else tree.at? p.path.dropLast

theorem at?_concat (tree : SyntaxTree) (path : List Nat) (i : Nat) :
    tree.at? (path ++ [i]) = (tree.at? path).bind (·.child? i) := by
  unfold at?
  rw [List.foldlM_append]
  cases path.foldlM Place.child? tree.root with
  | none => rfl
  | some p => simp

theorem has_root (tree : SyntaxTree) : tree.Has tree.root := rfl

theorem getElem?_of_child? (h : p.child? i = some q) : p.slots[i]? = some (some q) :=
  Option.join_eq_some_iff.mp h

theorem path_of_child? (h : p.child? i = some q) : q.path = p.path ++ [i] := by
  have hpath := p.element.slots.path_of_places 0 p.position i (getElem?_of_child? h)
  rwa [Nat.zero_add] at hpath

/-- Paths lead to places that know them. -/
theorem path_of_at? (h : tree.at? path = some p) : p.path = path := by
  induction path using List.reverseRecOn generalizing p with
  | nil =>
    cases h
    rfl
  | append_singleton path i ih =>
    rw [at?_concat, Option.bind_eq_some_iff] at h
    obtain ⟨q, hq, hp⟩ := h
    rw [path_of_child? hp, ih hq]

theorem has_of_at? (h : tree.at? path = some p) : tree.Has p := by
  rw [Has, path_of_at? h, h]

theorem at?_child (hq : tree.Has q) (h : some p ∈ q.slots) :
    ∃ i, p.path = q.path ++ [i] ∧ tree.at? p.path = some p := by
  obtain ⟨i, hi⟩ := List.getElem?_of_mem h
  have hchild : q.child? i = some p := by rw [Place.child?, hi]; rfl
  refine ⟨i, path_of_child? hchild, ?_⟩
  rw [path_of_child? hchild, at?_concat, hq]
  exact hchild

theorem Has.child (hq : tree.Has q) (h : some p ∈ q.slots) : tree.Has p :=
  (at?_child hq h).choose_spec.2

/-! ### The tokens -/

/-- The tokens at and below a place are a run of those of the tree. -/
theorem Has.tokenPlaces_infix (hp : tree.Has p) :
    p.element.tokenPlaces p.path p.position <:+: tree.tokens := by
  induction hpath : p.path using List.reverseRecOn generalizing p with
  | nil =>
    unfold Has at hp
    rw [hpath] at hp
    cases hp
    exact List.infix_refl _
  | append_singleton path i ih =>
    have hat : tree.at? (path ++ [i]) = some p := by rw [← hpath, hp]
    rw [at?_concat, Option.bind_eq_some_iff] at hat
    obtain ⟨q, hq, hchild⟩ := hat
    have hslot := List.mem_of_getElem? (getElem?_of_child? hchild)
    have hrun := q.element.slots.tokenPlaces_infix 0 q.position hslot
    rw [hpath] at hrun
    refine hrun.trans (List.IsInfix.trans ?_ (ih (has_of_at? hq) (path_of_at? hq)))
    cases hq' : q.element with
    | token t => rw [Place.slots, hq'] at hslot; simp [Tree.slots, Slots.places] at hslot
    | node kind slots => rw [path_of_at? hq]; exact List.infix_refl _

theorem Has.tokenPlaces_subset (hp : tree.Has p) :
    p.element.tokenPlaces p.path p.position ⊆ tree.tokens :=
  hp.tokenPlaces_infix.subset

mutual

theorem has_of_mem_tree {path : List Nat} {position : Nat} {e : Tree Kind Token}
    (he : tree.Has ⟨path, position, e⟩) (h : p ∈ e.tokenPlaces path position) : tree.Has p := by
  match e with
  | .token t =>
    cases List.mem_singleton.mp h
    exact he
  | .node kind slots => exact has_of_mem_slots (fun q hq => he.child hq) h

theorem has_of_mem_slots {path : List Nat} {index position : Nat} {s : Slots Kind Token}
    (hs : ∀ q, some q ∈ s.places path index position → tree.Has q)
    (h : p ∈ s.tokenPlaces path index position) : tree.Has p := by
  match s with
  | .nil => simp [Slots.tokenPlaces] at h
  | .empty rest =>
    exact has_of_mem_slots (s := rest) (fun q hq => hs q (List.mem_cons_of_mem _ hq)) h
  | .filled e rest =>
    rw [Slots.tokenPlaces, List.mem_append] at h
    rcases h with h | h
    · exact has_of_mem_tree (hs _ List.mem_cons_self) h
    · exact has_of_mem_slots (s := rest) (fun q hq => hs q (List.mem_cons_of_mem _ hq)) h

end

/-- The tokens of a tree are its places that are no nodes. -/
theorem mem_tokens : p ∈ tree.tokens ↔ tree.Has p ∧ p.isNode = false := by
  constructor
  · intro h
    refine ⟨has_of_mem_tree tree.has_root h, ?_⟩
    have hlocated : p.located ∈ tree.tokens.map Place.located := List.mem_map_of_mem h
    rw [tokens, Tree.map_located_tokenPlaces, List.mem_map] at hlocated
    obtain ⟨t, -, ht⟩ := hlocated
    have helement : p.element = .token t.2 := congrArg Prod.snd ht.symm
    rw [Place.isNode, helement, Tree.isNode]
  · rintro ⟨hp, hnode⟩
    apply hp.tokenPlaces_subset
    obtain ⟨path, position, e⟩ := p
    cases e with
    | token t => exact List.mem_singleton_self _
    | node kind slots => simp [Place.isNode, Tree.isNode] at hnode

theorem map_snd_located (position : Nat) (ts : List Token) :
    (Token.located position ts).map Prod.snd = ts := by
  induction ts generalizing position with
  | nil => rfl
  | cons t rest ih => rw [Token.located, List.map_cons, ih]

/-- The places of the tokens of an element have its tokens, in order. -/
theorem map_element_tokenPlaces (path : List Nat) (position : Nat) (e : Element) :
    (e.tokenPlaces path position).map Place.element = e.tokens.map Tree.token := by
  have hlocated := congrArg (List.map Prod.snd) (e.map_located_tokenPlaces path position)
  rw [List.map_map, List.map_map] at hlocated
  refine Eq.trans hlocated ?_
  conv_rhs => rw [← map_snd_located position e.tokens, List.map_map]
  rfl

theorem map_element_tokens (tree : SyntaxTree) :
    tree.tokens.map Place.element = tree.slots.tokens.map Tree.token :=
  map_element_tokenPlaces [] 0 tree.root.element

end SyntaxTree

end Stylesheet
