import Mathlib.Data.List.Chain
import Mathlib.Data.List.Pairwise
import Mathlib.Data.List.Sort
import Stylesheet.Classification
import Stylesheet.Proofs.Contents
import Stylesheet.Proofs.Spans

/-!
# Classified spans lie apart

A walk offers some texts twice: to the node that has a token in a slot, and to the token. And the
text of a selector's item has comments in it, if trivia stands between its tokens. `Once` rules both
out, node by node. Then no two spans of a place overlap, and sorting them by where they start puts
them one behind the other.

Results:
* `Place.spans_node`, `Place.spans_token`: the spans of a walk.
* `Place.filter_spans`: the comments among them are those of the trivia.
* `SyntaxTree.Has.apart_spans`: where all nodes are `Once`, no two spans overlap.
-/
namespace Stylesheet

/-! ## Trivia and slots in a row -/

/-- Pieces of trivia follow one another. -/
theorem TriviaPlace.pairwise_sequence (owner : Place) (position : Nat) (pieces : List Trivia) :
    (sequence owner position pieces).Pairwise fun s t => s.span.Before t.span := by
  induction pieces generalizing position with
  | nil => exact .nil
  | cons piece rest ih => exact .cons (fun t ht => (mem_sequence ht).1) (ih _)

/-- What stands in the slots of a node follows one another. -/
theorem Slots.pairwise_places {path : List Nat} {index position : Nat} (s : Slots Kind Token) :
    (s.places path index position).Pairwise fun a b =>
      ∀ p, a = some p → ∀ q, b = some q → p.fullSpan.Before q.fullSpan := by
  cases s with
  | nil => exact .nil
  | empty rest => exact .cons (fun _ _ => nofun) rest.pairwise_places
  | filled e rest =>
    refine .cons (fun b hb p hp q hq => ?_) rest.pairwise_places
    cases hp
    subst hq
    exact (Slots.fullSpan_within hb).1

/-! ## Places and what is below them -/

mutual

theorem Tree.place_induct {P : Place → Prop} (step : ∀ p, (∀ q, some q ∈ p.slots → P q) → P p)
    (path : List Nat) (position : Nat) (e : Tree Kind Token) : P ⟨path, position, e⟩ := by
  match e with
  | .token t => exact step _ fun q hq => nomatch hq
  | .node kind slots => exact step _ fun q hq => Slots.place_induct step slots hq

theorem Slots.place_induct {P : Place → Prop} (step : ∀ p, (∀ q, some q ∈ p.slots → P q) → P p)
    {path : List Nat} {index position : Nat} (s : Slots Kind Token) {q : Place}
    (hq : some q ∈ s.places path index position) : P q := by
  match s with
  | .nil => cases hq
  | .empty rest =>
    rw [Slots.places, List.mem_cons] at hq
    exact Slots.place_induct step rest (hq.resolve_left (Option.some_ne_none _))
  | .filled e rest =>
    rw [Slots.places, List.mem_cons] at hq
    rcases hq with hq | hq
    · cases hq
      exact Tree.place_induct step _ _ e
    · exact Slots.place_induct step rest hq

end

namespace Place

variable {p q r : Place} {kind : Kind} {slots : Slots Kind Token}

/-- What goes up from what is in the slots of a place to the place holds of all places. -/
theorem induct {P : Place → Prop} (step : ∀ p, (∀ q, some q ∈ p.slots → P q) → P p) (p : Place) :
    P p :=
  Tree.place_induct step p.path p.position p.element

theorem mem_children : q ∈ p.children ↔ some q ∈ p.slots := by
  simp [children]

theorem mem_slots_of_child? {i : Nat} (h : p.child? i = some q) : some q ∈ p.slots :=
  List.mem_of_getElem? (SyntaxTree.getElem?_of_child? h)

theorem pairwise_children (p : Place) :
    p.children.Pairwise fun q r => q.fullSpan.Before r.fullSpan :=
  List.pairwise_filterMap.mpr (p.element.slots.pairwise_places.imp fun h q hq r hr => h q hq r hr)

/-- What stands in different slots lies apart. -/
theorem apart_of_mem (hq : q ∈ p.children) (hr : r ∈ p.children) (hne : q ≠ r) :
    q.fullSpan.Apart r.fullSpan := by
  have hsymm : Std.Symm fun q r : Place => q.fullSpan.Apart r.fullSpan := ⟨fun _ _ h => h.symm⟩
  exact (p.pairwise_children.imp Span.Before.apart).forall hq hr hne

theorem fullSpan_within_of_child (hq : q ∈ p.children) : q.fullSpan.Within p.fullSpan :=
  fullSpan_within_of_slot (mem_children.mp hq)

theorem element_of_isNode (hp : p.isNode) : ∃ kind slots, p.element = .node kind slots := by
  unfold isNode at hp
  cases he : p.element with
  | token t => rw [he] at hp; cases hp
  | node kind slots => exact ⟨kind, slots, rfl⟩

theorem element_of_not_isNode (hp : p.isNode = false) : ∃ t, p.element = .token t := by
  unfold isNode at hp
  cases he : p.element with
  | token t => exact ⟨t, rfl⟩
  | node kind slots => rw [he] at hp; cases hp

end Place

/-! ## The spans of a walk -/

namespace Classification

variable {p q : Place} {role : Role} {s : ClassifiedSpan} {ts : List TriviaPlace}

/-- The spans of the comments among pieces of trivia. -/
def commentsOf (ts : List TriviaPlace) : List ClassifiedSpan :=
  (ts.filter (·.piece.kind.isComment)).map fun t => ⟨t.span, .comment⟩

theorem flatMap_trivia (ts : List TriviaPlace) :
    (ts.map Visit.trivia).flatMap ofVisit = commentsOf ts := by
  induction ts with
  | nil => rfl
  | cons t ts ih =>
    rw [List.map_cons, List.flatMap_cons, ih]
    cases h : t.piece.kind.isComment <;> simp [ofVisit, commentsOf, h]

theorem mem_commentsOf :
    s ∈ commentsOf ts ↔ ∃ t ∈ ts, t.piece.kind.isComment ∧ s = ⟨t.span, .comment⟩ := by
  simp only [commentsOf, List.mem_map, List.mem_filter, and_assoc, eq_comm]

theorem commentsOf_append (a b : List TriviaPlace) :
    commentsOf (a ++ b) = commentsOf a ++ commentsOf b := by
  simp [commentsOf]

theorem commentsOf_flatMap {α : Type} (f : α → List TriviaPlace) (l : List α) :
    commentsOf (l.flatMap f) = l.flatMap fun a => commentsOf (f a) := by
  simp only [commentsOf, List.filter_flatMap, List.map_flatMap]

theorem filter_commentsOf (ts : List TriviaPlace) :
    (commentsOf ts).filter (·.role = .comment) = commentsOf ts := by
  rw [List.filter_eq_self]
  intro s hs
  obtain ⟨t, -, -, rfl⟩ := mem_commentsOf.mp hs
  rfl

/-- A span has some text. -/
theorem spanOf_eq_some (h : spanOf role p = some s) :
    s = ⟨p.textSpan, role⟩ ∧ p.textSpan.start < p.textSpan.stop := by
  unfold spanOf at h
  split at h
  · cases h
  · next hp =>
    cases h
    have hwidth : p.width ≠ 0 := fun h => hp (by simp [h])
    unfold Place.width Span.width at hwidth
    exact ⟨rfl, by omega⟩

/-- A place gives a role to a text: its own, that of a token in one of its slots, or that of an item
of the list in its first slot. -/
inductive Marks (p : Place) : Place → Role → Prop
  | own {t role} (hp : p.element = .token t) (h : tokenRole? t.kind = some role) : Marks p p role
  | slot {kind slots x q} (hp : p.element = .node kind slots) (hx : x ∈ slotRoles kind)
      (h : p.child? x.1 = some q) (hq : q.isNode = false) : Marks p q x.2
  | item {slots list q} (hp : p.element = .node .selector slots) (h : p.child? 0 = some list)
      (hn : list.isNode) (hk : list.kind = .list) (hq : q ∈ list.children) : Marks p q .selector

theorem Marks.ne_comment (h : Marks p q role) : role ≠ .comment := by
  cases h with
  | @own t role hp h =>
    revert h
    generalize t.kind = kind
    cases kind <;> decide +revert
  | @slot kind slots x q hp hx h hq =>
    revert x
    cases kind <;> simp [slotRoles]
  | item => decide

theorem tokenIn?_eq_some {i : Nat} (h : p.tokenIn? i = some q) :
    p.child? i = some q ∧ q.isNode = false := by
  simpa [Place.tokenIn?, Option.filter_eq_some_iff] using h

/-- The items of the list in a slot are what is in the slots of a list. -/
theorem listIn_cases (p : Place) (i : Nat) :
    p.listIn i = [] ∨ ∃ list, p.child? i = some list ∧ list.isNode ∧ list.kind = .list ∧
      p.listIn i = list.children := by
  unfold Place.listIn
  cases h : (p.nodeIn? i).filter (·.kind = .list) with
  | none => exact .inl rfl
  | some list =>
    simp only [Place.nodeIn?, Option.filter_eq_some_iff, decide_eq_true_eq] at h
    exact .inr ⟨list, h.1.1, h.1.2, h.2, rfl⟩

theorem ofElement_token {t : Token} (hp : p.element = .token t) :
    ofElement p = ((tokenRole? t.kind).bind fun role => spanOf role p).toList := by
  unfold ofElement
  rw [hp]

theorem ofElement_selector {slots : Slots Kind Token} (hp : p.element = .node .selector slots) :
    ofElement p = (p.listIn 0).filterMap (spanOf .selector) := by
  unfold ofElement
  rw [hp]

theorem ofElement_node {kind : Kind} {slots : Slots Kind Token} (hp : p.element = .node kind slots)
    (hk : kind ≠ .selector) :
    ofElement p = (slotRoles kind).filterMap fun x => (p.tokenIn? x.1).bind (spanOf x.2) := by
  unfold ofElement
  rw [hp]
  cases kind <;> first | rfl | contradiction

theorem mem_ofElement (h : s ∈ ofElement p) : ∃ q role, Marks p q role ∧ spanOf role q = some s := by
  cases hp : p.element with
  | token t =>
    rw [ofElement_token hp, Option.mem_toList, Option.bind_eq_some_iff] at h
    obtain ⟨role, hrole, hs⟩ := h
    exact ⟨p, role, .own hp hrole, hs⟩
  | node kind slots =>
    by_cases hk : kind = .selector
    · subst hk
      rw [ofElement_selector hp, List.mem_filterMap] at h
      obtain ⟨q, hq, hs⟩ := h
      rcases listIn_cases p 0 with hnil | ⟨list, hlist, hn, hk, hitems⟩
      · rw [hnil] at hq
        cases hq
      · rw [hitems] at hq
        exact ⟨q, .selector, .item hp hlist hn hk hq, hs⟩
    · rw [ofElement_node hp hk, List.mem_filterMap] at h
      obtain ⟨x, hx, hs⟩ := h
      obtain ⟨q, hq, hs⟩ := Option.bind_eq_some_iff.mp hs
      obtain ⟨hchild, hq⟩ := tokenIn?_eq_some hq
      exact ⟨q, x.2, .slot hp hx hchild hq, hs⟩

end Classification

open Classification

namespace Place

variable {p q : Place} {kind : Kind} {slots : Slots Kind Token} {s : ClassifiedSpan}

/-- The spans at and below a place, in the order in which the walk meets them. -/
def spans (p : Place) : List ClassifiedSpan := p.visits.flatMap ofVisit

theorem spans_token {t : Token} (hp : p.element = .token t) :
    p.spans = commentsOf (TriviaPlace.sequence p p.position t.leading) ++
      (ofElement p ++ commentsOf (TriviaPlace.sequence p p.textSpan.stop t.trailing)) := by
  obtain ⟨path, position, e⟩ := p
  cases hp
  rw [spans, visits, Tree.visits, tokenVisits, List.flatMap_append, List.flatMap_cons,
    flatMap_trivia, flatMap_trivia]
  rfl

theorem flatMap_visits (path : List Nat) (index position : Nat) (s : Slots Kind Token) :
    (s.visits path index position).flatMap ofVisit
      = ((s.places path index position).filterMap id).flatMap spans := by
  cases s with
  | nil => rfl
  | empty rest => exact flatMap_visits path (index + 1) position rest
  | filled e rest =>
    rw [Slots.visits, List.flatMap_append,
      flatMap_visits path (index + 1) (position + e.fullWidth) rest]
    rfl

theorem spans_node (hp : p.element = .node kind slots) :
    p.spans = ofElement p ++ p.children.flatMap spans := by
  obtain ⟨path, position, e⟩ := p
  cases hp
  rw [spans, visits, Tree.visits, List.flatMap_cons, flatMap_visits]
  rfl

theorem tokenPlaces_slots (path : List Nat) (index position : Nat) (s : Slots Kind Token) :
    s.tokenPlaces path index position
      = ((s.places path index position).filterMap id).flatMap tokenPlaces := by
  cases s with
  | nil => rfl
  | empty rest => exact tokenPlaces_slots path (index + 1) position rest
  | filled e rest =>
    rw [Slots.tokenPlaces, tokenPlaces_slots path (index + 1) (position + e.fullWidth) rest]
    rfl

theorem tokenPlaces_node (hp : p.element = .node kind slots) :
    p.tokenPlaces = p.children.flatMap tokenPlaces := by
  obtain ⟨path, position, e⟩ := p
  cases hp
  rw [tokenPlaces, Tree.tokenPlaces, tokenPlaces_slots]
  rfl

theorem tokenPlaces_token {t : Token} (hp : p.element = .token t) : p.tokenPlaces = [p] := by
  obtain ⟨path, position, e⟩ := p
  cases hp
  rfl

theorem filter_ofElement (p : Place) : (ofElement p).filter (·.role = .comment) = [] := by
  rw [List.filter_eq_nil_iff]
  intro s hs
  obtain ⟨q, role, hmarks, hspan⟩ := mem_ofElement hs
  obtain ⟨rfl, -⟩ := spanOf_eq_some hspan
  simpa using hmarks.ne_comment

/-- The comments among the spans of a place are those of its tokens' trivia, each once and in
order. -/
theorem filter_spans (p : Place) :
    p.spans.filter (·.role = .comment) = commentsOf (p.tokenPlaces.flatMap trivia) := by
  induction p using Place.induct with
  | step p ih =>
    cases hp : p.element with
    | token t =>
      rw [spans_token hp, tokenPlaces_token hp, List.filter_append, List.filter_append,
        filter_ofElement, filter_commentsOf, filter_commentsOf, List.flatMap_singleton,
        trivia_of_token hp, commentsOf_append]
      rfl
    | node kind slots =>
      rw [spans_node hp, tokenPlaces_node hp, List.filter_append, filter_ofElement,
        List.nil_append, List.flatMap_assoc, commentsOf_flatMap, List.filter_flatMap]
      exact List.flatMap_congr fun q hq => ih q (mem_children.mp hq)

theorem exists_of_comment (hs : s ∈ p.spans) (hc : s.role = .comment) :
    ∃ q ∈ p.tokenPlaces, ∃ t ∈ q.trivia, t.piece.kind.isComment ∧ s = ⟨t.span, .comment⟩ := by
  have hfilter : s ∈ p.spans.filter (·.role = .comment) :=
    List.mem_filter.mpr ⟨hs, decide_eq_true hc⟩
  rw [filter_spans, mem_commentsOf] at hfilter
  obtain ⟨t, ht, hcomment, rfl⟩ := hfilter
  obtain ⟨q, hq, ht⟩ := List.mem_flatMap.mp ht
  exact ⟨q, hq, t, ht, hcomment, rfl⟩

end Place

/-! ## Where spans stand -/

section Standing

variable {tree : SyntaxTree} {p q : Place} {role : Role} {s : ClassifiedSpan}

theorem Classification.Marks.within (h : Marks p q role) : q.fullSpan.Within p.fullSpan := by
  cases h with
  | own => exact ⟨Nat.le_refl _, Nat.le_refl _⟩
  | slot _ _ h _ => exact Place.fullSpan_within_of_slot (Place.mem_slots_of_child? h)
  | item _ h _ _ hq =>
    exact (Place.fullSpan_within_of_child hq).trans
      (Place.fullSpan_within_of_slot (Place.mem_slots_of_child? h))

theorem Classification.Marks.has (hp : tree.Has p) (h : Marks p q role) : tree.Has q := by
  cases h with
  | own => exact hp
  | slot _ _ h _ => exact hp.child (Place.mem_slots_of_child? h)
  | item _ h _ _ hq =>
    exact (hp.child (Place.mem_slots_of_child? h)).child (Place.mem_children.mp hq)

namespace SyntaxTree.Has

/-- A span that is no comment is the text of a place, and has some text. -/
theorem exists_of_mem_spans (hp : tree.Has p) (hs : s ∈ p.spans) (hc : s.role ≠ .comment) :
    ∃ q, tree.Has q ∧ q.fullSpan.Within p.fullSpan ∧ s.span = q.textSpan ∧
      s.span.start < s.span.stop := by
  have hown (p : Place) (hp : tree.Has p) (hs : s ∈ ofElement p) :
      ∃ q, tree.Has q ∧ q.fullSpan.Within p.fullSpan ∧ s.span = q.textSpan ∧
        s.span.start < s.span.stop := by
    obtain ⟨q, role, hmarks, hspan⟩ := mem_ofElement hs
    obtain ⟨rfl, hlt⟩ := spanOf_eq_some hspan
    exact ⟨q, hmarks.has hp, hmarks.within, rfl, hlt⟩
  induction p using Place.induct with
  | step p ih =>
    cases he : p.element with
    | token t =>
      rw [Place.spans_token he, List.mem_append, List.mem_append] at hs
      rcases hs with hs | hs | hs
      · obtain ⟨t, -, -, rfl⟩ := mem_commentsOf.mp hs
        exact absurd rfl hc
      · exact hown p hp hs
      · obtain ⟨t, -, -, rfl⟩ := mem_commentsOf.mp hs
        exact absurd rfl hc
    | node kind slots =>
      rw [Place.spans_node he, List.mem_append, List.mem_flatMap] at hs
      rcases hs with hs | ⟨q, hq, hs⟩
      · exact hown p hp hs
      · have hslot := Place.mem_children.mp hq
        obtain ⟨r, hr, hwithin, hspan⟩ := ih q hslot (hp.child hslot) hs
        exact ⟨r, hr, hwithin.trans (Place.fullSpan_within_of_slot hslot), hspan⟩

theorem within_of_mem_spans (hp : tree.Has p) (hs : s ∈ p.spans) : s.span.Within p.fullSpan := by
  by_cases hc : s.role = .comment
  · obtain ⟨q, hq, t, ht, -, rfl⟩ := Place.exists_of_comment hs hc
    obtain ⟨token, htoken⟩ := Place.isToken_of_mem hq
    exact (Place.trivia_of_mem_token htoken ht).1.trans (Place.fullSpan_within_of_mem hq)
  · obtain ⟨q, -, hwithin, hspan, -⟩ := hp.exists_of_mem_spans hs hc
    rw [hspan]
    exact q.textSpan_within.trans hwithin

end SyntaxTree.Has

/-- No comment on a token is empty. -/
def Token.CommentsFull (t : Token) : Prop :=
  ∀ piece ∈ t.leading ++ t.trailing, piece.kind.isComment → 0 < piece.width

theorem TriviaPlace.piece_of_mem_sequence {owner : Place} {position : Nat} {pieces : List Trivia}
    {t : TriviaPlace} (h : t ∈ sequence owner position pieces) : t.piece ∈ pieces := by
  induction pieces generalizing position with
  | nil => cases h
  | cons piece rest ih =>
    rcases List.mem_cons.mp h with rfl | h
    · exact List.mem_cons_self
    · exact List.mem_cons_of_mem _ (ih h)

namespace SyntaxTree

theorem token_mem {t : Token} (hq : q ∈ tree.tokens) (ht : q.element = .token t) :
    t ∈ tree.slots.tokens := by
  have helement : q.element ∈ tree.tokens.map Place.element := List.mem_map_of_mem hq
  rw [map_element_tokens, ht] at helement
  obtain ⟨u, hu, heq⟩ := List.mem_map.mp helement
  cases heq
  exact hu

theorem Has.filled_of_mem_spans (h : ∀ t ∈ tree.slots.tokens, t.CommentsFull) (hp : tree.Has p)
    (hs : s ∈ p.spans) : s.span.start < s.span.stop := by
  by_cases hc : s.role = .comment
  · obtain ⟨q, hq, t, ht, hcomment, rfl⟩ := Place.exists_of_comment hs hc
    obtain ⟨token, htoken⟩ := Place.isToken_of_mem hq
    rw [Place.trivia_of_token htoken] at ht
    have hpiece : t.piece ∈ token.leading ++ token.trailing := by
      rcases List.mem_append.mp ht with ht | ht
      · exact List.mem_append_left _ (TriviaPlace.piece_of_mem_sequence ht)
      · exact List.mem_append_right _ (TriviaPlace.piece_of_mem_sequence ht)
    have hpos := h token (token_mem (hp.tokenPlaces_subset hq) htoken) _ hpiece hcomment
    simp only [TriviaPlace.span, Span.start_ofWidth, Span.stop_ofWidth]
    omega
  · obtain ⟨q, -, -, -, hlt⟩ := hp.exists_of_mem_spans hs hc
    exact hlt

end SyntaxTree

end Standing

/-! ## Rows of tokens -/

section Rows

variable {start stop : Nat} {p q : Place} {ps : List Place} {s : TriviaPlace}

/-- Tokens whose trivia is all at the ends of their row. -/
def Token.Snug (ts : List Token) : Prop :=
  (ts.filter Token.isPresent).IsChain fun a b => a.trailing = [] ∧ b.leading = []

namespace Place

/-- A token with trivia is there. -/
theorem mem_presentPlaces {t : Token} (hq : q ∈ p.tokenPlaces) (ht : q.element = .token t)
    (h : t.leading ++ t.trailing ≠ []) : q ∈ p.presentPlaces := by
  refine List.mem_filter.mpr ⟨hq, ?_⟩
  rw [token?, ht]
  cases t with
  | present => rfl
  | missing => exact absurd rfl h

/-- Where tokens are snug, the places of the present ones are. -/
theorem isChain_presentPlaces (h : Token.Snug p.element.tokens) :
    p.presentPlaces.IsChain fun q r =>
      ∀ t u, q.element = .token t → r.element = .token u → t.trailing = [] ∧ u.leading = [] := by
  have hmap : p.presentPlaces.map element
      = (p.element.tokens.filter Token.isPresent).map Tree.token := by
    have helements := congrArg (List.filter fun e : Element => !e.isNode && !e.isMissing)
      (SyntaxTree.map_element_tokenPlaces p.path p.position p.element)
    rw [List.filter_map, List.filter_map] at helements
    refine Eq.trans (congrArg _ ?_) helements
    refine List.filter_congr fun q hq => ?_
    obtain ⟨t, ht⟩ := isToken_of_mem hq
    rw [token?, Function.comp_apply, ht]
    rfl
  have hchain : ((p.element.tokens.filter Token.isPresent).map Tree.token).IsChain
      fun q r : Element => ∀ t u, q = .token t → r = .token u → t.trailing = [] ∧ u.leading = [] := by
    rw [List.isChain_map]
    refine h.imp fun a b hab t u ht hu => ?_
    cases ht
    cases hu
    exact hab
  rw [← hmap, List.isChain_map] at hchain
  exact hchain

section Snug

variable {t : Token} (h : Token.Snug p.element.tokens) (hq : q ∈ p.tokenPlaces)
  (ht : q.element = .token t)

include h hq ht

/-- Only the first present token has trivia in front of it. -/
theorem firstPresent?_of_leading (hne : t.leading ≠ []) : p.firstPresent? = some q := by
  obtain ⟨as, bs, hsplit⟩ := List.append_of_mem (mem_presentPlaces hq ht (by simp [hne]))
  have hchain := isChain_presentPlaces h
  rw [← head?_presentPlaces, hsplit]
  rw [hsplit] at hchain
  rcases List.eq_nil_or_concat as with rfl | ⟨as, a, rfl⟩
  · rfl
  · have ha : a ∈ p.tokenPlaces := by
      refine (List.mem_filter.mp (?_ : a ∈ p.presentPlaces)).1
      simp [hsplit]
    obtain ⟨u, hu⟩ := isToken_of_mem ha
    rw [List.concat_append, List.isChain_append_cons_cons] at hchain
    exact absurd (hchain.2.1 u t hu ht).2 hne

/-- Only the last present token has trivia behind it. -/
theorem lastPresent?_of_trailing (hne : t.trailing ≠ []) : p.lastPresent? = some q := by
  obtain ⟨as, bs, hsplit⟩ := List.append_of_mem (mem_presentPlaces hq ht (by simp [hne]))
  have hchain := isChain_presentPlaces h
  rw [← getLast?_presentPlaces, hsplit]
  rw [hsplit] at hchain
  cases bs with
  | nil => simp
  | cons b bs =>
    have hb : b ∈ p.tokenPlaces := by
      refine (List.mem_filter.mp (?_ : b ∈ p.presentPlaces)).1
      simp [hsplit]
    obtain ⟨u, hu⟩ := isToken_of_mem hb
    rw [List.isChain_append_cons_cons] at hchain
    exact absurd (hchain.2.1 t u ht hu).1 hne

end Snug

/-- In a snug row, trivia stands in front of the first present token or behind the last one: beside
the text of the place. -/
theorem trivia_apart (h : Token.Snug p.element.tokens) (hq : q ∈ p.tokenPlaces) (hs : s ∈ q.trivia) :
    s.span.Apart p.textSpan := by
  obtain ⟨t, ht⟩ := isToken_of_mem hq
  cases hp : p.isNode with
  | false =>
    obtain ⟨u, hu⟩ := element_of_not_isNode hp
    rw [tokenPlaces_token hu, List.mem_singleton] at hq
    exact hq ▸ (trivia_of_mem_token ht hs).2
  | true =>
    have hne : t.leading ++ t.trailing ≠ [] := by
      intro hnil
      obtain ⟨hleading, htrailing⟩ := List.append_eq_nil_iff.mp hnil
      rw [trivia_of_token ht, hleading, htrailing] at hs
      cases hs
    have hpresent := mem_presentPlaces hq ht hne
    rw [trivia_of_token ht, List.mem_append] at hs
    rcases p.textSpan_cases hp with ⟨-, -, hnone⟩ | ⟨first, last, hfirst, hlast, hstart, hstop⟩
    · rw [← head?_presentPlaces, List.head?_eq_none_iff] at hnone
      rw [hnone] at hpresent
      cases hpresent
    rcases hs with hs | hs
    · have hq' := firstPresent?_of_leading h hq ht fun hnil => by rw [hnil] at hs; cases hs
      cases hfirst.symm.trans hq'
      refine .inl ?_
      rw [Span.Before, hstart, textSpan_of_token ht]
      exact (TriviaPlace.mem_sequence hs).2
    · have hq' := lastPresent?_of_trailing h hq ht fun hnil => by rw [hnil] at hs; cases hs
      cases hlast.symm.trans hq'
      refine .inr ?_
      rw [Span.Before, hstop]
      have hlate := (TriviaPlace.mem_sequence hs).1
      exact Nat.max_le.mpr ⟨Nat.le_trans (start_le_of_firstPresent? hfirst hpresent) hlate, hlate⟩

end Place

end Rows

/-! ## Spans apart -/

namespace Classification

/-- An element that gives rise to no spans but those of its comments. -/
structure Quiet (e : Element) : Prop where
  tokens : ∀ t ∈ e.tokens, tokenRole? t.kind = none
  nodes : e.Everywhere fun kind _ => kind ≠ .selector ∧ slotRoles kind = []

/-- What a node gives a role to has none of its own, nor has anything below it, and no comment in
its text. -/
structure Once (kind : Kind) (slots : Slots Kind Token) : Prop where
  tokens : ∀ x ∈ slotRoles kind, ∀ t, slots.toList[x.1]? = some (some (.token t)) →
    tokenRole? t.kind = none
  items : kind = .selector → ∀ list, slots.toList[0]? = some (some list) →
    ∀ e, some e ∈ list.slots.toList → Quiet e ∧ Token.Snug e.tokens

theorem pairwise_slotRoles (kind : Kind) : (slotRoles kind).Pairwise fun x y => x.1 < y.1 := by
  cases kind <;> decide

end Classification

namespace Place

variable {tree : SyntaxTree} {p q : Place} {s : ClassifiedSpan}

theorem ofElement_of_quiet (h : Quiet p.element) : ofElement p = [] := by
  cases hp : p.element with
  | token t =>
    rw [ofElement_token hp, h.tokens t (by rw [hp]; exact List.mem_singleton_self t)]
    rfl
  | node kind slots =>
    have hnode := h.nodes
    rw [hp] at hnode
    rw [ofElement_node hp hnode.1.1, hnode.1.2]
    rfl

theorem quiet_of_slot (h : Quiet p.element) (hq : some q ∈ p.slots) : Quiet q.element := by
  refine ⟨fun t ht => h.tokens t ?_, everywhere_of_slot h.nodes hq⟩
  have hslot := element_mem_toList hq
  cases hp : p.element with
  | token u => rw [hp] at hslot; cases hslot
  | node kind slots => rw [hp] at hslot; exact slots.tokens_subset hslot ht

theorem role_of_quiet (h : Quiet p.element) (hs : s ∈ p.spans) : s.role = .comment := by
  induction p using Place.induct with
  | step p ih =>
    have hown := ofElement_of_quiet h
    cases hp : p.element with
    | token t =>
      rw [spans_token hp, hown, List.nil_append, List.mem_append] at hs
      rcases hs with hs | hs
      · obtain ⟨t, -, -, rfl⟩ := mem_commentsOf.mp hs
        rfl
      · obtain ⟨t, -, -, rfl⟩ := mem_commentsOf.mp hs
        rfl
    | node kind slots =>
      rw [spans_node hp, hown, List.nil_append, List.mem_flatMap] at hs
      obtain ⟨q, hq, hs⟩ := hs
      exact ih q (mem_children.mp hq) (quiet_of_slot h (mem_children.mp hq)) hs

theorem quiet_token {t : Token} (h : tokenRole? t.kind = none) : Quiet (.token t) := by
  refine ⟨fun u hu => ?_, trivial⟩
  rw [Tree.tokens, List.mem_singleton] at hu
  exact hu ▸ h

theorem snug_token (t : Token) : Token.Snug (Tree.tokens (.token t : Element)) := by
  unfold Token.Snug
  cases t <;> simp [Tree.tokens, Token.isPresent, Token.isMissing]

/-- The comments of a quiet element stand beside its text. -/
theorem apart_of_quiet (hq : Quiet p.element) (h : Token.Snug p.element.tokens) (hs : s ∈ p.spans) :
    p.textSpan.Apart s.span := by
  obtain ⟨q, hq, t, ht, -, rfl⟩ := exists_of_comment hs (role_of_quiet hq hs)
  exact (trivia_apart h hq ht).symm

section Marks

variable {kind : Kind} {slots : Slots Kind Token} {role : Role} {r : Place}

/-- A text that a node gives a role to overlaps no span from below the node. -/
theorem apart_of_marks (hh : tree.Has p) (hp : p.element = .node kind slots) (h : Once kind slots)
    (hm : Marks p q role) (hr : r ∈ p.children) (hs : s ∈ r.spans) :
    q.textSpan.Apart s.span := by
  have hwithin := (hh.child (mem_children.mp hr)).within_of_mem_spans hs
  cases hm with
  | own ht => rw [hp] at ht; cases ht
  | @slot _ _ x q hp' hx hchild hq =>
    cases hp.symm.trans hp'
    by_cases hne : q = r
    · subst hne
      obtain ⟨t, ht⟩ := element_of_not_isNode hq
      have hfirst := getElem?_toList hchild
      rw [hp, ht] at hfirst
      refine apart_of_quiet ?_ ?_ hs
      · exact ht ▸ quiet_token (h.tokens x hx t hfirst)
      · exact ht ▸ snug_token t
    · have hslot := mem_children.mpr (mem_slots_of_child? hchild)
      exact (apart_of_mem hslot hr hne).mono q.textSpan_within hwithin
  | @item slots list q hp' hchild hn hk hq =>
    cases hp.symm.trans hp'
    have hslot := mem_slots_of_child? hchild
    by_cases hne : list = r
    · -- the list has no spans of its own, so the span is from below one of the items
      subst hne
      obtain ⟨kind, slots, hlist⟩ := element_of_isNode hn
      obtain rfl : kind = .list := by rwa [Place.kind, hlist] at hk
      rw [spans_node hlist, ofElement_node hlist (by decide)] at hs
      obtain ⟨r, hr, hs⟩ := List.mem_flatMap.mp hs
      by_cases hne : q = r
      · subst hne
        have hfirst := getElem?_toList hchild
        rw [hp] at hfirst
        obtain ⟨hquiet, hsnug⟩ := h.items rfl list.element hfirst q.element
          (element_mem_toList (mem_children.mp hr))
        exact apart_of_quiet hquiet hsnug hs
      · have hhas := (hh.child hslot).child (mem_children.mp hr)
        exact (apart_of_mem hq hr hne).mono q.textSpan_within (hhas.within_of_mem_spans hs)
    · have hin := q.textSpan_within.trans (fullSpan_within_of_child hq)
      exact (apart_of_mem (mem_children.mpr hslot) hr hne).mono hin hwithin

theorem before_of_child? {i j : Nat} (hij : i < j) (hq : p.child? i = some q)
    (hr : p.child? j = some r) : q.fullSpan.Before r.fullSpan := by
  have hq' := SyntaxTree.getElem?_of_child? hq
  have hr' := SyntaxTree.getElem?_of_child? hr
  obtain ⟨hi, hqi⟩ := List.getElem?_eq_some_iff.mp hq'
  obtain ⟨hj, hrj⟩ := List.getElem?_eq_some_iff.mp hr'
  exact List.pairwise_iff_getElem.mp p.element.slots.pairwise_places i j hi hj hij q hqi r hrj

/-- The texts that a node gives roles to do not overlap. -/
theorem pairwise_ofElement (hp : p.element = .node kind slots) :
    (ofElement p).Pairwise fun a b => a.span.Apart b.span := by
  have hbefore {q r : Place} {role role' : Role} {a b : ClassifiedSpan}
      (h : q.fullSpan.Before r.fullSpan) (ha : spanOf role q = some a)
      (hb : spanOf role' r = some b) : a.span.Apart b.span := by
    obtain ⟨rfl, -⟩ := spanOf_eq_some ha
    obtain ⟨rfl, -⟩ := spanOf_eq_some hb
    exact (h.mono q.textSpan_within r.textSpan_within).apart
  by_cases hk : kind = .selector
  · subst hk
    rw [ofElement_selector hp, List.pairwise_filterMap]
    rcases listIn_cases p 0 with hnil | ⟨list, -, -, -, hitems⟩
    · rw [hnil]
      exact .nil
    · rw [hitems]
      exact list.pairwise_children.imp fun h a ha b hb => hbefore h ha hb
  · rw [ofElement_node hp hk, List.pairwise_filterMap]
    refine (pairwise_slotRoles kind).imp fun hlt a ha b hb => ?_
    obtain ⟨q, hq, ha⟩ := Option.bind_eq_some_iff.mp ha
    obtain ⟨r, hr, hb⟩ := Option.bind_eq_some_iff.mp hb
    exact hbefore (before_of_child? hlt (tokenIn?_eq_some hq).1 (tokenIn?_eq_some hr).1) ha hb

theorem pairwise_commentsOf {ts : List TriviaPlace}
    (h : ts.Pairwise fun s t => s.span.Before t.span) :
    (commentsOf ts).Pairwise fun a b => a.span.Before b.span :=
  List.pairwise_map.mpr (h.filter _)

/-- The spans of a token: the comments in front of it, its own, and the comments behind it. -/
theorem pairwise_spans_token {t : Token} (hp : p.element = .token t) :
    p.spans.Pairwise fun a b => a.span.Before b.span := by
  have hown {a : ClassifiedSpan} (ha : a ∈ ofElement p) : a.span = p.textSpan := by
    obtain ⟨q, role, hm, hspan⟩ := mem_ofElement ha
    obtain ⟨rfl, -⟩ := spanOf_eq_some hspan
    cases hm with
    | own => rfl
    | slot hp' => rw [hp] at hp'; cases hp'
    | item hp' => rw [hp] at hp'; cases hp'
  have hlead {a : ClassifiedSpan}
      (ha : a ∈ commentsOf (TriviaPlace.sequence p p.position t.leading)) :
      a.span.Before p.textSpan := by
    obtain ⟨c, hc, -, rfl⟩ := mem_commentsOf.mp ha
    rw [textSpan_of_token hp]
    exact (TriviaPlace.mem_sequence hc).2
  have htrail {a : ClassifiedSpan}
      (ha : a ∈ commentsOf (TriviaPlace.sequence p p.textSpan.stop t.trailing)) :
      p.textSpan.Before a.span := by
    obtain ⟨c, hc, -, rfl⟩ := mem_commentsOf.mp ha
    exact (TriviaPlace.mem_sequence hc).1
  rw [spans_token hp, List.pairwise_append, List.pairwise_append]
  refine ⟨pairwise_commentsOf (TriviaPlace.pairwise_sequence ..), ⟨?_, ?_, ?_⟩, ?_⟩
  · rw [ofElement_token hp]
    cases (tokenRole? t.kind).bind fun role => spanOf role p with
    | none => exact .nil
    | some a => exact List.pairwise_singleton _ _
  · exact pairwise_commentsOf (TriviaPlace.pairwise_sequence ..)
  · intro a ha b hb
    rw [hown ha]
    exact htrail hb
  · intro a ha b hb
    rcases List.mem_append.mp hb with hb | hb
    · rw [hown hb]
      exact hlead ha
    · exact Nat.le_trans (hlead ha) (Nat.le_trans p.textSpan.start_le_stop (htrail hb))

end Marks

end Place

/-- Where no text gets a role twice, no two spans overlap. -/
theorem SyntaxTree.Has.apart_spans {tree : SyntaxTree} {p : Place} (hh : tree.Has p)
    (h : p.element.Everywhere Once) : p.spans.Pairwise fun a b => a.span.Apart b.span := by
  induction p using Place.induct with
  | step p ih =>
    cases hp : p.element with
    | token t => exact (Place.pairwise_spans_token hp).imp Span.Before.apart
    | node kind slots =>
      have honce := h
      rw [hp] at honce
      rw [Place.spans_node hp, List.pairwise_append, List.pairwise_flatMap]
      refine ⟨Place.pairwise_ofElement hp, ⟨fun q hq => ?_, ?_⟩, fun a ha b hb => ?_⟩
      · have hslot := Place.mem_children.mp hq
        exact ih q hslot (hh.child hslot) (Place.everywhere_of_slot h hslot)
      · refine p.pairwise_children.imp_of_mem fun hq hr hbefore a ha b hb => ?_
        have ha := (hh.child (Place.mem_children.mp hq)).within_of_mem_spans ha
        have hb := (hh.child (Place.mem_children.mp hr)).within_of_mem_spans hb
        exact (hbefore.mono ha hb).apart
      · obtain ⟨q, role, hm, hspan⟩ := mem_ofElement ha
        obtain ⟨rfl, -⟩ := spanOf_eq_some hspan
        obtain ⟨r, hr, hb⟩ := List.mem_flatMap.mp hb
        exact Place.apart_of_marks hh hp honce.1 hm hr hb

end Stylesheet
