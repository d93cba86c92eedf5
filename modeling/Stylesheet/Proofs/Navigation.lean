import Stylesheet.Proofs.Finished
import Stylesheet.Proofs.Preorder
import Stylesheet.Proofs.Spans

/-!
# Steps from one element to another

From a token one can step to the tokens next to it, from an element to the node that holds it or to
what stands in one of its slots, and from a node to the first and the last token below it. Each
step reads one thing that is stored: the list of tokens and a token's index in it, the parent of an
element, or the slots. A step has another one that undoes it, and steps in one direction come to an
end.

**Rows.** `Leads` says that steps go through a row of elements and lead nowhere from its last one.
The row of `Arena.nextToken?` are the tokens. That of `Builder.parent?` are the nodes above an
element; each is younger than the one below it, so there is a last one, and it is the root.

Results:
* `leads_drop`: steps to the next index go through a list.
* `Arena.Whole.nextToken?_eq_some_iff`, `Arena.Whole.prevToken?_eq_some_iff`: neighbours.
* `Arena.Whole.leads_ancestors`: the way up to the root.
* `Builder.Sound.navigable`, `Builder.finish_navigable`: the steps of a finished tree.
-/
namespace Stylesheet

/-! ## Rows of steps -/

section Rows

variable {α : Type}

/-- Whether steps go through a row one after the other, and lead nowhere from its last one. -/
def Leads (step : α → Option α) : Option α → List α → Prop
  | start, [] => start = none
  | start, x :: rest => start = some x ∧ Leads step (step x) rest

/-- Steps to the next index go through a list. -/
theorem leads_drop (step : α → Option α) (xs : List α)
    (h : ∀ i x, xs[i]? = some x → step x = xs[i + 1]?) (i : Nat) :
    Leads step xs[i]? (xs.drop i) := by
  induction hdrop : xs.drop i generalizing i with
  | nil =>
    unfold Leads
    rw [← List.head?_drop, hdrop]
    rfl
  | cons x rest ih =>
    have hx : xs[i]? = some x := by rw [← List.head?_drop, hdrop]; rfl
    have hrest : xs.drop (i + 1) = rest := by rw [← List.tail_drop, hdrop]; rfl
    refine ⟨hx, ?_⟩
    rw [h i x hx]
    exact ih (i + 1) hrest

/-- What stands once in a row of slots stands in one of them. -/
theorem getElem?_reduceOption_inj {xs : List (Option α)} {x : α} {i j : Nat}
    (h : xs.reduceOption.Nodup) (hi : xs[i]? = some (some x)) (hj : xs[j]? = some (some x)) :
    i = j := by
  induction xs generalizing i j with
  | nil => cases hi
  | cons y xs ih =>
    have hfront (hy : y = some x) : some x ∉ xs := by
      rw [hy, List.reduceOption_cons_of_some, List.nodup_cons, List.reduceOption_mem_iff] at h
      exact h.1
    have hrest : xs.reduceOption.Nodup := by
      cases y with
      | none => exact h
      | some y => exact (List.nodup_cons.mp h).2
    cases i with
    | zero =>
      cases j with
      | zero => rfl
      | succ j =>
        rw [List.getElem?_cons_succ] at hj
        exact absurd (List.mem_of_getElem? hj) (hfront (Option.some.inj hi))
    | succ i =>
      rw [List.getElem?_cons_succ] at hi
      cases j with
      | zero => exact absurd (List.mem_of_getElem? hi) (hfront (Option.some.inj hj))
      | succ j => exact congrArg (· + 1) (ih hrest hi hj)

end Rows

/-! ## The tokens below -/

mutual

theorem Tree.firstNumber?_eq (e : Numbered) : e.firstNumber? = (e.tokens.map Prod.fst).head? := by
  match e with
  | .token (number, t) => rfl
  | .node (number, kind) slots => exact Slots.firstNumber?_eq slots

theorem Slots.firstNumber?_eq (s : NumberedSlots) :
    s.firstNumber? = (s.tokens.map Prod.fst).head? := by
  match s with
  | .nil => rfl
  | .empty rest => exact Slots.firstNumber?_eq rest
  | .filled e rest =>
    rw [Slots.firstNumber?, Slots.tokens, List.map_append, List.head?_append,
      ← Tree.firstNumber?_eq e, ← Slots.firstNumber?_eq rest]
    cases e.firstNumber? <;> rfl

end

mutual

theorem Tree.lastNumber?_eq (e : Numbered) :
    e.lastNumber? = (e.tokens.map Prod.fst).getLast? := by
  match e with
  | .token (number, t) => rfl
  | .node (number, kind) slots => exact Slots.lastNumber?_eq slots

theorem Slots.lastNumber?_eq (s : NumberedSlots) :
    s.lastNumber? = (s.tokens.map Prod.fst).getLast? := by
  match s with
  | .nil => rfl
  | .empty rest => exact Slots.lastNumber?_eq rest
  | .filled e rest =>
    rw [Slots.lastNumber?, Slots.tokens, List.map_append, List.getLast?_append,
      ← Tree.lastNumber?_eq e, ← Slots.lastNumber?_eq rest]
    cases rest.lastNumber? <;> rfl

end

namespace Builder

variable {b : Builder} {x y : ElementId}

/-- What is below an element below another one stands together below that one. -/
theorem Formed.below_infix (hb : b.Formed) (hx : b.made x) (h : y ∈ b.below x) :
    b.below y <:+: b.below x := by
  refine hb.induct (P := fun x => y ∈ b.below x → b.below y <:+: b.below x) ?_ ?_ hx h
  · intro n hn h
    rw [below_token (made_token.mpr hn)] at h
    exact List.mem_singleton.mp h ▸ List.infix_refl _
  · intro n kind xs hn ih h
    have hmade := made_of_shape hn
    rw [hb.below_node hmade, slotsOf_of_shape hn, List.mem_cons, List.mem_flatMap] at h
    rcases h with rfl | ⟨z, hz, hy⟩
    · exact List.infix_refl _
    · rw [hb.below_node hmade, slotsOf_of_shape hn]
      refine (ih z (List.reduceOption_mem_iff.mp hz) hy).trans ?_
      obtain ⟨front, back, hsplit⟩ := List.append_of_mem hz
      rw [hsplit, List.flatMap_append, List.flatMap_cons]
      exact (List.infix_append' _ _ _).trans (List.suffix_cons _ _).isInfix

end Builder

namespace Arena

variable {a : Arena} {made : List Builder.Call} {text : Text} {root t u n i : Nat} {x : ElementId}

theorem firstToken?_eq (a : Arena) (n : Nat) : a.firstToken? n = (a.descendantTokens n).head? := by
  rw [firstToken?, descendantTokens]
  cases a.element? (.node n) with
  | none => rfl
  | some e => exact e.firstNumber?_eq

theorem lastToken?_eq (a : Arena) (n : Nat) :
    a.lastToken? n = (a.descendantTokens n).getLast? := by
  rw [lastToken?, descendantTokens]
  cases a.element? (.node n) with
  | none => rfl
  | some e => exact e.lastNumber?_eq

theorem descendantTokens_eq (a : Arena) (n : Nat) :
    a.descendantTokens n = (a.below (.node n)).filterMap ElementId.token? := by
  rw [descendantTokens, Builder.below]
  cases a.element? (.node n) with
  | none => rfl
  | some e => exact e.filterMap_ids.symm

/-! ## Neighbours -/

theorem made_of_order? (h : a.order? t = some i) : a.made (.token t) := by
  obtain ⟨data, hdata, -⟩ := Option.map_eq_some_iff.mp h
  exact Builder.made_token.mpr (Array.getElem?_eq_some_iff.mp hdata).1

theorem Whole.made_of_mem (h : a.Whole made text root) (ht : a.tokenList[i]? = some t) :
    a.made (.token t) := by
  have hmem := h.all.mem_iff.mp (List.mem_of_getElem? ht)
  exact Builder.made_token.mpr (List.mem_range.mp hmem)

theorem nextToken?_of_order? (h : a.order? t = some i) :
    a.nextToken? t = a.tokenList[i + 1]? := by
  rw [nextToken?, h, tokenList, Array.getElem?_toList]
  rfl

theorem prevToken?_of_order? (h : a.order? t = some i) :
    a.prevToken? t = if i = 0 then none else a.tokenList[i - 1]? := by
  rw [prevToken?, h, tokenList, Array.getElem?_toList]
  rfl

/-- One token is next to another one if their indices are next to one another. -/
theorem Whole.nextToken?_eq_some_iff (h : a.Whole made text root) :
    a.nextToken? t = some u ↔
      ∃ i : Nat, a.tokenList[i]? = some t ∧ a.tokenList[i + 1]? = some u := by
  constructor
  · intro hnext
    obtain ⟨i, hi, -⟩ := Option.bind_eq_some_iff.mp hnext
    rw [nextToken?_of_order? hi] at hnext
    exact ⟨i, (h.order t (made_of_order? hi) i).mp hi, hnext⟩
  · rintro ⟨i, ht, hu⟩
    rw [nextToken?_of_order? ((h.order t (h.made_of_mem ht) i).mpr ht), hu]

theorem Whole.prevToken?_eq_some_iff (h : a.Whole made text root) :
    a.prevToken? u = some t ↔
      ∃ i : Nat, a.tokenList[i]? = some t ∧ a.tokenList[i + 1]? = some u := by
  constructor
  · intro hprev
    obtain ⟨j, hj, -⟩ := Option.bind_eq_some_iff.mp hprev
    rw [prevToken?_of_order? hj] at hprev
    have hu := (h.order u (made_of_order? hj) j).mp hj
    cases j with
    | zero => cases hprev
    | succ i => exact ⟨i, hprev, hu⟩
  · rintro ⟨i, ht, hu⟩
    rw [prevToken?_of_order? ((h.order u (h.made_of_mem hu) (i + 1)).mpr hu)]
    exact ht

/-- Steps to the next token go through all tokens. -/
theorem Whole.leads_nextToken? (h : a.Whole made text root) :
    Leads a.nextToken? a.tokenList.head? a.tokenList := by
  have hleads := leads_drop a.nextToken? a.tokenList (fun i t ht =>
    nextToken?_of_order? ((h.order t (h.made_of_mem ht) i).mpr ht)) 0
  rwa [List.drop_zero, ← List.head?_eq_getElem?] at hleads

/-! ## Parents -/

theorem slot_eq_ok_iff : a.slot (.node n) i = .ok (some x) ↔ (a.slotsOf n)[i]? = some (some x) := by
  rw [slot]
  cases (a.slotsOf n)[i]? <;> simp

/-- The parent of an element is the node with the element in a slot. -/
theorem Whole.parent?_eq_some_iff (h : a.Whole made text root) :
    a.parent? x = some n ↔ ∃ i, a.slot (.node n) i = .ok (some x) := by
  rw [h.parent, List.mem_iff_getElem?]
  simp only [slot_eq_ok_iff]

/-- An element is in one slot of its parent. -/
theorem Whole.exists_unique_slot (h : a.Whole made text root) (hx : a.parent? x = some n) :
    ∃! i, a.slot (.node n) i = .ok (some x) := by
  obtain ⟨i, hi⟩ := h.parent?_eq_some_iff.mp hx
  refine ⟨i, hi, fun j hj => ?_⟩
  exact getElem?_reduceOption_inj (h.once n) (slot_eq_ok_iff.mp hj) (slot_eq_ok_iff.mp hi)

/-- The parent of a node is younger than the node. -/
theorem Whole.lt_of_parent? (h : a.Whole made text root) (ha : a.Formed) {m : Nat}
    (hm : a.parent? (.node n) = some m) : n < m ∧ m < a.nodes.size := by
  obtain ⟨i, hi⟩ := List.getElem?_of_mem ((h.parent _ m).mp hm)
  have hmade := (made_of_slot ha hi).1
  obtain ⟨kind, xs, hshape⟩ := Builder.exists_shape hmade
  rw [Builder.slotsOf_of_shape hshape] at hi
  exact ⟨ha.older m kind xs hshape _ (List.mem_of_getElem? hi), Builder.made_node.mp hmade⟩

theorem Whole.leads_ancestorsFrom (h : a.Whole made text root) (ha : a.Formed) {steps : Nat}
    (hn : n < a.nodes.size) (hsteps : a.nodes.size - n ≤ steps) :
    Leads (fun m => a.parent? (.node m)) (some n) (a.ancestorsFrom steps (some n)) ∧
      (a.ancestorsFrom steps (some n)).getLast? = some root := by
  induction steps generalizing n with
  | zero => omega
  | succ steps ih =>
    rw [ancestorsFrom]
    cases hparent : a.parent? (.node n) with
    | none =>
      have hroot : n = root := by
        by_contra hne
        have hheld := h.held (.node n) (Builder.made_node.mpr hn) fun heq =>
          hne (ElementId.node.inj heq)
        rw [hparent] at hheld
        cases hheld
      rw [ancestorsFrom]
      exact ⟨⟨rfl, hparent⟩, congrArg some hroot⟩
    | some m =>
      obtain ⟨hlt, hm⟩ := h.lt_of_parent? ha hparent
      obtain ⟨hleads, hlast⟩ := ih hm (by omega)
      refine ⟨⟨rfl, hparent ▸ hleads⟩, ?_⟩
      rw [List.getLast?_cons, hlast]
      rfl

/-- Where steps up from an element start: a node is the first of its ancestors, and a token is
none. -/
def firstAncestor? (a : Arena) : ElementId → Option Nat
  | .node n => some n
  | .token t => a.parent? (.token t)

/-- Steps to the parent lead up to the root. -/
theorem Whole.leads_ancestors (h : a.Whole made text root) (ha : a.Formed) (hx : a.made x) :
    Leads (fun n => a.parent? (.node n)) (a.firstAncestor? x) (a.ancestors x) ∧
      (a.ancestors x).getLast? = some root := by
  cases x with
  | node n => exact h.leads_ancestorsFrom ha (Builder.made_node.mp hx) (Nat.sub_le _ _)
  | token t =>
    obtain ⟨n, hn⟩ := Option.isSome_iff_exists.mp (h.held _ hx ElementId.noConfusion)
    obtain ⟨i, hi⟩ := List.getElem?_of_mem ((h.parent _ n).mp hn)
    have hmade := Builder.made_node.mp (made_of_slot ha hi).1
    rw [firstAncestor?, ancestors, hn]
    exact h.leads_ancestorsFrom ha hmade (Nat.sub_le _ _)

/-! ## Paths -/

/-- The parent of what a path leads to is what the path without its last slot leads to. -/
theorem Whole.parent?_of_concat (h : a.Whole made text root) {path : List Nat}
    (hx : a.at? (path ++ [i]) = some x) : (a.parent? x).map .node = a.at? path := by
  rw [at?_concat, Option.bind_eq_some_iff] at hx
  obtain ⟨y, hy, hx⟩ := hx
  cases y with
  | token t => cases hx
  | node n =>
    rw [child?_node] at hx
    have hslot := List.mem_of_getElem? (Option.join_eq_some_iff.mp hx)
    rw [(h.parent x n).mpr hslot, hy]
    rfl

/-- A path leads to each element. -/
theorem Whole.exists_path (h : a.Whole made text root) (ha : a.Formed) (hx : a.made x) :
    ∃ path, a.at? path = some x := by
  have hroot : a.made (.node a.root) := h.top ▸ h.rooted
  have hpaths := ha.locatedAt_induct (P := fun entry => ∃ path, a.at? path = some entry.1) hroot
    ?_ 0 ⟨[], rfl⟩
  · have hmem : x ∈ (a.locatedAt (.node a.root, 0)).map Prod.fst := by
      rw [Builder.map_fst_locatedAt]
      exact h.reached.mem_iff.mpr (Builder.mem_ids.mpr hx)
    obtain ⟨entry, hentry, rfl⟩ := List.mem_map.mp hmem
    exact hpaths entry hentry
  · rintro n position - ⟨path, hpath⟩ entry hentry
    obtain ⟨i, hi⟩ := List.getElem?_of_mem (Builder.mem_of_mem_lay hentry)
    refine ⟨path ++ [i], ?_⟩
    rw [at?_concat, hpath, Option.bind_some, child?_node, hi]
    rfl

/-- The tokens that are read below what stands in some slots are those that are stored there. -/
theorem map_at?_tokenPlaces {path : List Nat} {xs : List (Option ElementId)} {index position : Nat}
    (hmade : ∀ y, some y ∈ xs → a.made y)
    (hslots : ∀ i y, xs[i]? = some (some y) → a.at? (path ++ [index + i]) = some y)
    (hbelow : ∀ y, some y ∈ xs → ∀ path position e, a.at? path = some y → a.element? y = some e →
      (e.unnumbered.tokenPlaces path position).map (a.at? ·.path)
        = e.tokens.map fun t => some (.token t.1)) :
    (((Slots.ofList (xs.map (·.bind a.element?))).map Prod.snd Prod.snd).tokenPlaces path index
        position).map (a.at? ·.path)
      = (Slots.ofList (xs.map (·.bind a.element?))).tokens.map fun t => some (.token t.1) := by
  induction xs generalizing index position with
  | nil => rfl
  | cons x xs ih =>
    have hrest (position : Nat) := @ih (index + 1) position
      (fun y hy => hmade y (List.mem_cons_of_mem _ hy))
      (fun i y hy => by
        rw [Nat.add_assoc, Nat.add_comm 1]
        exact hslots (i + 1) y hy)
      (fun y hy => hbelow y (List.mem_cons_of_mem _ hy))
    cases x with
    | none => exact hrest position
    | some x =>
      obtain ⟨e, he⟩ := Option.isSome_iff_exists.mp
        (Builder.made_iff_element?.mp (hmade x List.mem_cons_self))
      rw [List.map_cons, Option.bind_some, he, Slots.ofList, Slots.map, Slots.tokenPlaces,
        Slots.tokens, List.map_append, List.map_append, hrest]
      exact congrArg (· ++ _) (hbelow x List.mem_cons_self _ _ e (hslots 0 x rfl) he)

/-- The tokens that are read below an element are those that are stored there. -/
theorem map_at?_element {path : List Nat} {position : Nat} {e : Numbered} (ha : a.Formed)
    (hx : a.made x) (hpath : a.at? path = some x) (he : a.element? x = some e) :
    (e.unnumbered.tokenPlaces path position).map (a.at? ·.path)
      = e.tokens.map fun t => some (.token t.1) := by
  refine ha.induct (P := fun x => ∀ path position e, a.at? path = some x → a.element? x = some e →
    (e.unnumbered.tokenPlaces path position).map (a.at? ·.path)
      = e.tokens.map fun t => some (.token t.1)) ?_ ?_ hx path position e hpath he
  · intro n hn path position e hpath he
    obtain ⟨t, ht⟩ := Builder.exists_token (Builder.made_token.mpr hn)
    rw [Builder.element?_token ht] at he
    cases he
    exact congrArg (fun y => [y]) hpath
  · intro n kind xs hn ih path position e hpath he
    rw [ha.element?_node hn] at he
    cases he
    refine map_at?_tokenPlaces (fun y hy => ha.made hn hy) (fun i y hy => ?_) ih
    rw [Nat.zero_add, at?_concat, hpath, Option.bind_some, child?_node,
      Builder.slotsOf_of_shape hn, hy]
    rfl

end Arena

namespace Place

variable {p : Place}

theorem descendantTokens_eq (p : Place) : p.descendantTokens = p.tokenPlaces :=
  Tree.tokens_events p.path p.position p.element

/-- The tokens below a node are those that a walker comes to. -/
theorem descendantTokens_eq_rest (hp : p.isNode) :
    p.descendantTokens = (Walker.ofPlace p).rest.filterMap Event.token? := by
  rw [Walker.rest, Walker.run_ofPlace hp]
  rfl

end Place

namespace Arena

variable {a : Arena} {made : List Builder.Call} {text : Text} {root : Nat}

/-- A walker over a node comes to the tokens that are stored below it. -/
theorem Whole.descendantTokens_eq (h : a.Whole made text root) (ha : a.Formed) {path : List Nat}
    {p : Place} {n : Nat} (hp : a.tree.at? path = some p) (hn : a.at? path = some (.node n)) :
    ((Walker.ofPlace p).rest.filterMap Event.token?).map (a.at? ·.path)
      = (a.descendantTokens n).map fun t => some (.token t) := by
  rw [h.view, hn, Option.bind_some] at hp
  obtain ⟨position, e, -, he, rfl⟩ := place?_eq_some.mp hp
  have hmade := Builder.made_iff_element?.mpr (Option.isSome_iff_exists.mpr ⟨e, he⟩)
  have hnode : e.unnumbered.isNode := by
    obtain ⟨kind, xs, hshape⟩ := Builder.exists_shape hmade
    rw [ha.element?_node hshape] at he
    cases he
    rfl
  have hread : (⟨path, position, e.unnumbered⟩ : Place).isNode := hnode
  rw [← Place.descendantTokens_eq_rest hread, Place.descendantTokens_eq, descendantTokens, he]
  refine (map_at?_element ha hmade hn he).trans ?_
  simp

/-! ## All steps -/

/-- Steps that undo one another, and steps that come to an end. -/
structure Navigable (a : Arena) : Prop where
  /-- One token is the next one of another iff that one is its previous one. -/
  neighbours : ∀ t u, a.nextToken? t = some u ↔ a.prevToken? u = some t
  /-- Steps from the first token on go through all tokens, in order. -/
  forward : Leads a.nextToken? a.tokenList.head? a.tokenList
  first : ∀ n, a.firstToken? n = (a.descendantTokens n).head?
  last : ∀ n, a.lastToken? n = (a.descendantTokens n).getLast?
  bare : ∀ n, (a.descendantTokens n = [] ↔ a.firstToken? n = none) ∧
    (a.descendantTokens n = [] ↔ a.lastToken? n = none)
  /-- A walker over a node comes to the tokens below it. -/
  descendants : ∀ path p n, a.tree.at? path = some p → a.at? path = some (.node n) →
    ((Walker.ofPlace p).rest.filterMap Event.token?).map (a.at? ·.path)
      = (a.descendantTokens n).map fun t => some (.token t)
  /-- The tokens below a node stand together. -/
  together : ∀ n, a.made (.node n) → a.descendantTokens n <:+: a.tokenList
  parent : ∀ x n, a.parent? x = some n ↔ ∃ i, a.slot (.node n) i = .ok (some x)
  /-- An element is in one slot of its parent. -/
  once : ∀ x n, a.parent? x = some n → ∃! i, a.slot (.node n) i = .ok (some x)
  /-- A path leads to each element, and without its last slot to the parent. -/
  paths : ∀ x, a.made x → ∃ path, a.at? path = some x
  around : ∀ path i x, a.at? (path ++ [i]) = some x → (a.parent? x).map .node = a.at? path
  /-- Steps to the parent go through the ancestors, and the last of them is the root. -/
  upward : ∀ x, a.made x →
    Leads (fun n => a.parent? (.node n)) (a.firstAncestor? x) (a.ancestors x) ∧
      (a.ancestors x).getLast? = some a.root

end Arena

namespace Builder

variable {b : Builder} {a : Arena} {made : List Call} {text : Text} {root : Nat}

theorem Sound.navigable (hb : b.Sound made) (hf : b.finish text root = .ok a) : a.Navigable := by
  have hwhole := hb.whole hf
  have hformed := hb.formed_finish hf
  refine
    { neighbours := fun t u => ?_, forward := hwhole.leads_nextToken?, first := a.firstToken?_eq,
      last := a.lastToken?_eq, bare := fun n => ?_,
      descendants := fun _ _ _ => hwhole.descendantTokens_eq hformed, together := fun n hn => ?_,
      parent := fun _ _ => hwhole.parent?_eq_some_iff, once := fun _ _ => hwhole.exists_unique_slot,
      paths := fun _ => hwhole.exists_path hformed, around := fun _ _ _ => hwhole.parent?_of_concat,
      upward := fun x hx => ?_ }
  · rw [hwhole.nextToken?_eq_some_iff, hwhole.prevToken?_eq_some_iff]
  · rw [a.firstToken?_eq, a.lastToken?_eq, List.head?_eq_none_iff, List.getLast?_eq_none_iff]
    exact ⟨Iff.rfl, Iff.rfl⟩
  · have hroot : a.made (.node a.root) := hwhole.top ▸ hwhole.rooted
    rw [a.descendantTokens_eq, hwhole.preorder]
    have hmem : .node n ∈ a.walk := hwhole.reached.mem_iff.mpr (mem_ids.mpr hn)
    exact (hformed.below_infix hroot hmem).filterMap _
  · rw [hwhole.top]
    exact hwhole.leads_ancestors hformed hx

/-- The steps of a tree that `finish` returns undo one another and come to an end. -/
theorem finish_navigable (hb : empty.calls made = .ok b) (hf : b.finish text root = .ok a) :
    a.Navigable :=
  (sound_empty.calls hb).navigable hf

/-- The calls for an empty list in front of a list with a missing token alone. -/
def bareCalls : List Call :=
  [.node .list [], .missing .identifier, .node .list [some (.token 0)], .token [] .eof 0 [],
    .node .list [some (.node 0), none, some (.node 1)],
    .node .document [some (.node 2), some (.token 1)]]

theorem finish_navigable_bare : ∃ b a,
    empty.calls bareCalls = .ok b ∧ b.finish [] 3 = .ok a ∧ a.Navigable := by
  obtain ⟨b, a, hb, hf⟩ := exists_finished bareCalls [] 3 (by decide +kernel)
  exact ⟨b, a, hb, hf, finish_navigable hb hf⟩

end Builder

end Stylesheet
