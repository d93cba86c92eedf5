import Mathlib.Data.List.Perm.Basic
import Mathlib.Data.List.Range
import Stylesheet.Proofs.Adoption

/-!
# Everything that was made hangs together

A node takes elements that were made before it, and no element is taken twice. So at any time the
elements that no node holds are the tops of separate trees, and these trees together have each
element once. That every element but the root is held leaves one top: the root.

**Calls.** `Builder.calls` makes elements one after the other. Element `n` of its sort is the one
that the `n`th call of the sort made.

**Invariant (`Builder.Sound`).** It says what the calls made, that the trees below the tops have
every element once, and that the parent of an element is the node with the element in one slot.

Results:
* `Builder.Formed.tops_withToken`, `Builder.Formed.tops_adopt`: what a call does to the tops.
* `Builder.Sound.call`, `Builder.Sound.calls`: the invariant is kept by each call, so by all.
* `Builder.Sound.walk`: where every element but the root is held, a walk from the root comes to each
  element once.
-/
namespace Stylesheet

theorem Slots.allIds_eq_flatMap (s : NumberedSlots) :
    s.allIds = s.toList.reduceOption.flatMap Tree.ids := by
  cases s with
  | nil => rfl
  | empty rest => exact rest.allIds_eq_flatMap
  | filled t rest =>
    rw [Slots.allIds, rest.allIds_eq_flatMap, toList, List.reduceOption_cons_of_some,
      List.flatMap_cons]

/-- What is found for the elements of some slots. -/
theorem reduceOption_map_bind {α β : Type} (f : α → Option β) (xs : List (Option α)) :
    (xs.map (·.bind f)).reduceOption = xs.reduceOption.filterMap f := by
  induction xs with
  | nil => rfl
  | cons x xs ih =>
    cases x with
    | none => exact ih
    | some x =>
      rw [List.map_cons, Option.bind_some, List.reduceOption_cons_of_some]
      cases hx : f x with
      | none => rw [List.reduceOption_cons_of_none, ih, List.filterMap_cons_none hx]
      | some y => rw [List.reduceOption_cons_of_some, ih, List.filterMap_cons_some hx]

namespace Builder

/-! ## Calls -/

/-- A request to make an element. -/
inductive Call where
  | token (leading : List Trivia) (kind : Kind) (width : Nat) (trailing : List Trivia)
  | missing (kind : Kind)
  | node (kind : Kind) (slots : List (Option ElementId))

namespace Call

/-- The token that a call makes. -/
def token? : Call → Option Token
  | .token leading kind width trailing => some (.present kind leading width trailing)
  | .missing kind => some (.missing kind)
  | .node _ _ => none

/-- The node that a call makes: its kind, and what is asked for in its slots. -/
def node? : Call → Option (Kind × List (Option ElementId))
  | .node kind slots => some (kind, slots)
  | _ => none

end Call

def call (b : Builder) : Call → Except BuildError (ElementId × Builder)
  | .token leading kind width trailing => b.token leading kind width trailing
  | .missing kind => b.missing kind
  | .node kind slots => b.node kind slots

/-- The builder after calls of which none fails. -/
def calls (b : Builder) : List Call → Except BuildError Builder
  | [] => .ok b
  | c :: rest => do
    let (_, b) ← b.call c
    b.calls rest

/-- What each node's slots are asked to hold, the nodes being numbered in the order of their
calls. -/
def nodeCalls (made : List Call) : List (Kind × List (Option ElementId)) :=
  made.filterMap Call.node?

def tokenCalls (made : List Call) : List Token := made.filterMap Call.token?

/-! ## Tops -/

/-- All elements, the tokens first. -/
def ids (b : Builder) : List ElementId :=
  (List.range b.tokens.size).map .token ++ (List.range b.nodes.size).map .node

/-- The elements that no node holds. -/
def free (b : Builder) : List ElementId := b.ids.filter fun x => (b.parent? x).isNone

/-- The trees below the elements that no node holds. -/
def tops (b : Builder) : List Numbered := b.free.filterMap b.element?

variable {b b' : Builder} {x : ElementId} {e : Numbered} {xs : List (Option ElementId)}
  {kind : Kind} {n : Nat} {t : Token}

theorem mem_ids : x ∈ b.ids ↔ b.made x := by
  cases x <;> simp [ids, made]

theorem nodup_ids (b : Builder) : b.ids.Nodup := by
  refine List.nodup_append.mpr ⟨?_, ?_, ?_⟩
  · exact List.nodup_range.map fun _ _ h => ElementId.token.inj h
  · exact List.nodup_range.map fun _ _ h => ElementId.node.inj h
  · intro x hx y hy
    obtain ⟨n, -, rfl⟩ := List.mem_map.mp hx
    obtain ⟨m, -, rfl⟩ := List.mem_map.mp hy
    exact ElementId.noConfusion

theorem nodup_free (b : Builder) : b.free.Nodup := b.nodup_ids.filter _

theorem mem_free : x ∈ b.free ↔ b.made x ∧ b.parent? x = none := by
  simp [free, mem_ids]

theorem not_made_token (b : Builder) : ¬b.made (.token b.tokens.size) := by simp [made]

theorem not_made_node (b : Builder) : ¬b.made (.node b.nodes.size) := by simp [made]

theorem ids_withToken (b : Builder) (t : Token) :
    (b.withToken t).ids.Perm (b.ids ++ [.token b.tokens.size]) := by
  simp only [ids, size_tokens_withToken, nodes_withToken, List.range_succ, List.map_append,
    List.map_singleton, List.append_assoc]
  exact List.perm_append_comm.append_left _

theorem ids_adopt (b : Builder) (kind : Kind) (xs : List (Option ElementId)) :
    (b.adopt kind xs).ids = b.ids ++ [.node b.nodes.size] := by
  simp only [ids, size_tokens_adopt, size_nodes_adopt, List.range_succ, List.map_append,
    List.map_singleton, List.append_assoc]

theorem free_withToken (b : Builder) (t : Token) :
    (b.withToken t).free.Perm (b.free ++ [.token b.tokens.size]) := by
  have hperm := (b.ids_withToken t).filter fun x => ((b.withToken t).parent? x).isNone
  rw [List.filter_append] at hperm
  simpa [free, parent?_withToken, parent?_of_not_made b.not_made_token] using hperm

/-- A new token is one more top. -/
theorem Formed.tops_withToken (hb : b.Formed) (t : Token) :
    (b.withToken t).tops.Perm (b.tops ++ [.token (b.tokens.size, t)]) := by
  have hold : b.free.filterMap (b.withToken t).element? = b.tops := by
    refine List.filterMap_congr fun x hx => ?_
    have hne : x ≠ .token b.tokens.size := fun h => b.not_made_token (h ▸ (mem_free.mp hx).1)
    rw [hb.element?_withToken, if_neg hne]
  have hnew : (b.withToken t).element? (.token b.tokens.size)
      = some (.token (b.tokens.size, t)) := by
    rw [hb.element?_withToken, if_pos rfl]
  have hperm := (b.free_withToken t).filterMap (b.withToken t).element?
  rw [List.filterMap_append, hold, List.filterMap_cons_some hnew] at hperm
  exact hperm

/-- A node takes free elements, and is free itself. -/
theorem Free.free_adopt (hfree : b.Free xs) (kind : Kind) :
    ∃ left, b.free.Perm (xs.reduceOption ++ left) ∧
      (b.adopt kind xs).free.Perm (left ++ [.node b.nodes.size]) := by
  let left := b.free.filter (· ∉ xs.reduceOption)
  have hleft {x : ElementId} :
      x ∈ left ↔ (b.made x ∧ b.parent? x = none) ∧ x ∉ xs.reduceOption := by
    simp [left, mem_free]
  have hnodup : left.Nodup := b.nodup_free.filter _
  refine ⟨left, ?_, ?_⟩
  · refine (List.perm_ext_iff_of_nodup b.nodup_free ?_).mpr fun x => ?_
    · exact List.nodup_append.mpr
        ⟨hfree.once, hnodup, fun x hx y hy hxy => (hleft.mp hy).2 (hxy ▸ hx)⟩
    · rw [mem_free, List.mem_append, hleft]
      by_cases hx : x ∈ xs.reduceOption
      · simp [hx, hfree.made x hx, hfree.free x hx]
      · simp [hx]
  · refine (List.perm_ext_iff_of_nodup (nodup_free _) ?_).mpr fun x => ?_
    · refine List.nodup_append.mpr ⟨hnodup, List.nodup_singleton _, fun x hx y hy hxy => ?_⟩
      rw [List.mem_singleton] at hy
      exact b.not_made_node (hy ▸ hxy ▸ (hleft.mp hx).1.1)
    · rw [mem_free, ← mem_ids, ids_adopt, parent?_adopt hfree, List.mem_append, mem_ids,
        List.mem_append, hleft, List.mem_singleton]
      by_cases hx : x = .node b.nodes.size
      · have hout : x ∉ xs.reduceOption := fun h => b.not_made_node (hx ▸ hfree.made x h)
        simp [hx, parent?_of_not_made b.not_made_node, b.not_made_node]
        exact hx ▸ hout
      · by_cases hin : x ∈ xs.reduceOption <;> simp [hx, hin]

/-- The trees that a node takes. -/
def takenTrees (b : Builder) (xs : List (Option ElementId)) : List Numbered :=
  xs.reduceOption.filterMap b.element?

/-- A node takes tops away, and is one itself. -/
theorem Formed.tops_adopt (hb : b.Formed) (hfree : b.Free xs) (kind : Kind) :
    ∃ rest, b.tops.Perm (b.takenTrees xs ++ rest) ∧
      (b.adopt kind xs).tops.Perm (rest ++
        [.node (b.nodes.size, kind) (Slots.ofList (xs.map (·.bind b.element?)))]) := by
  obtain ⟨left, hold, hnew⟩ := hfree.free_adopt kind
  refine ⟨left.filterMap b.element?, ?_, ?_⟩
  · have hperm := hold.filterMap b.element?
    rwa [List.filterMap_append] at hperm
  · have hsame : left.filterMap (b.adopt kind xs).element? = left.filterMap b.element? := by
      refine List.filterMap_congr fun x hx => ?_
      have hmem : x ∈ b.free := hold.mem_iff.mpr (List.mem_append_right _ hx)
      rw [hb.element?_adopt, if_neg (ne_of_made (mem_free.mp hmem).1)]
    have hlast := hb.element?_adopt kind xs (.node b.nodes.size)
    rw [if_pos rfl] at hlast
    have hperm := hnew.filterMap (b.adopt kind xs).element?
    rw [List.filterMap_append, hsame, List.filterMap_cons_some hlast] at hperm
    exact hperm

/-! ## The invariant -/

/-- What a builder is after the given calls. -/
structure Sound (b : Builder) (made : List Call) : Prop where
  formed : b.Formed
  tokens : b.madeTokens.toList = tokenCalls made
  nodes : b.shapes = nodeCalls made
  /-- The trees below the tops have each element once. -/
  reached : (b.tops.flatMap Tree.ids).Perm b.ids
  /-- The parent of an element is the node with the element in a slot. -/
  parent : ∀ x n, b.parent? x = some n ↔ some x ∈ b.slotsOf n
  /-- No element is in two slots of a node. -/
  once : ∀ n, (b.slotsOf n).reduceOption.Nodup

theorem sound_empty : empty.Sound [] where
  formed := formed_empty
  tokens := by simp [empty, madeTokens, tokenCalls]
  nodes := rfl
  reached := List.Perm.refl _
  parent x n := by cases x <;> simp [parent?, empty, slotsOf]
  once n := by simp [empty, slotsOf]

theorem Sound.withToken {made : List Call} {c : Call} (h : b.Sound made) (ht : c.token? = some t)
    (hn : c.node? = none) (hfits : b.tokens.size < sizeLimit) :
    (b.withToken t).Sound (made ++ [c]) where
  formed := h.formed.withToken hfits t
  tokens := by
    rw [madeTokens_withToken, Array.toList_push, h.tokens]
    simp [tokenCalls, List.filterMap_append, ht]
  nodes := by
    rw [shapes_withToken, h.nodes]
    simp [nodeCalls, List.filterMap_append, hn]
  reached := by
    refine ((h.formed.tops_withToken t).flatMap_right _).trans ?_
    rw [List.flatMap_append, List.flatMap_singleton, Tree.ids]
    exact (h.reached.append_right _).trans (b.ids_withToken t).symm
  parent x n := by
    rw [parent?_withToken, h.parent]
    rfl
  once := h.once

theorem Formed.slotsOf_adopt (hb : b.Formed) (kind : Kind) (xs : List (Option ElementId))
    (n : Nat) : (b.adopt kind xs).slotsOf n = if n = b.nodes.size then xs else b.slotsOf n := by
  rw [slotsOf_eq, slotsOf_eq, hb.shapes_adopt]
  by_cases hn : n = b.nodes.size
  · rw [if_pos hn, hn, ← length_shapes]
    simp
  · rw [if_neg hn]
    rcases Nat.lt_or_gt_of_ne hn with h | h
    · rw [List.getElem?_append_left (by simpa using h)]
    · rw [List.getElem?_eq_none (by simp; omega), List.getElem?_eq_none (by simp; omega)]

theorem slotsOf_eq_nil (h : b.nodes.size ≤ n) : b.slotsOf n = [] := by
  rw [slotsOf, Array.getElem?_eq_none h]
  rfl

theorem Sound.adopt {made : List Call} (h : b.Sound made) (hfree : b.Free xs) (hroom : b.Room xs) :
    (b.adopt kind xs).Sound (made ++ [.node kind xs]) where
  formed := h.formed.adopt hfree hroom kind
  tokens := by
    rw [madeTokens_adopt, h.tokens]
    simp [tokenCalls, List.filterMap_append, Call.token?]
  nodes := by
    rw [h.formed.shapes_adopt, h.nodes]
    simp [nodeCalls, List.filterMap_append, Call.node?]
  reached := by
    obtain ⟨rest, hold, hnew⟩ := h.formed.tops_adopt hfree kind
    have hold := (hold.flatMap_right Tree.ids).symm.trans h.reached
    rw [List.flatMap_append] at hold
    refine (hnew.flatMap_right _).trans ?_
    rw [List.flatMap_append, List.flatMap_singleton, Tree.ids, Slots.allIds_eq_flatMap,
      Slots.toList_ofList, reduceOption_map_bind, ids_adopt]
    -- the new top has the elements of the trees that were taken, and itself
    refine List.perm_middle.trans (List.Perm.trans ?_ (List.perm_append_singleton _ _).symm)
    exact (List.perm_append_comm.trans hold).cons _
  parent x n := by
    rw [parent?_adopt hfree, h.formed.slotsOf_adopt]
    by_cases hn : n = b.nodes.size
    · have hnone : b.parent? x ≠ some n := by
        rw [Ne, h.parent, slotsOf_eq_nil (Nat.le_of_eq hn.symm)]
        exact List.not_mem_nil
      rw [if_pos hn, ← List.reduceOption_mem_iff]
      split
      · next hx => simp [hx, hn]
      · next hx => exact iff_of_false hnone hx
    · rw [if_neg hn, ← h.parent]
      split
      · next hx => simp [hfree.free x hx, Ne.symm hn]
      · rfl
  once n := by
    rw [h.formed.slotsOf_adopt]
    split
    · exact hfree.once
    · exact h.once n

theorem Sound.call {made : List Call} {c : Call} (h : b.Sound made)
    (hc : b.call c = .ok (x, b')) : b'.Sound (made ++ [c]) := by
  cases c with
  | token leading kind width trailing =>
    rw [Builder.call] at hc
    rcases b.token_cases leading kind width trailing with hadd | ⟨-, herror⟩
    · rw [hadd] at hc
      obtain ⟨hfits, -, rfl⟩ := addToken_eq_ok hc
      exact h.withToken rfl rfl hfits
    · rw [herror] at hc
      cases hc
  | missing kind =>
    obtain ⟨hfits, -, rfl⟩ := addToken_eq_ok hc
    exact h.withToken rfl rfl hfits
  | node kind xs =>
    obtain ⟨-, hfree, -, hroom, -, rfl⟩ := node_eq_ok h.formed hc
    exact h.adopt hfree hroom

theorem Sound.calls {made cs : List Call} (h : b.Sound made) (hc : b.calls cs = .ok b') :
    b'.Sound (made ++ cs) := by
  induction cs generalizing b made with
  | nil =>
    cases hc
    rwa [List.append_nil]
  | cons c rest ih =>
    obtain ⟨⟨x, b₁⟩, hfirst, hc⟩ := bind_eq_ok.mp hc
    have hrest := ih (h.call hfirst) hc
    rwa [List.append_assoc, List.singleton_append] at hrest

/-! ## Everything held -/

/-- Whether every element but the root is held by a node. -/
structure Held (b : Builder) (root : Nat) : Prop where
  made : root < b.nodes.size
  free : b.parent? (.node root) = none
  others : ∀ x, b.made x → x ≠ .node root → (b.parent? x).isSome

/-- Where every element but the root is held, a walk from the root comes to each element once. -/
theorem Sound.walk {made : List Call} {root : Nat} (h : b.Sound made) (hheld : b.Held root) :
    ∃ whole, b.element? (.node root) = some whole ∧ whole.ids.Perm b.ids := by
  obtain ⟨whole, hwhole⟩ : ∃ whole, b.element? (.node root) = some whole :=
    Option.isSome_iff_exists.mp (made_iff_element?.mp (made_node.mpr hheld.made))
  have hfree : b.free.Perm [.node root] := by
    refine (List.perm_ext_iff_of_nodup b.nodup_free (List.nodup_singleton _)).mpr fun x => ?_
    rw [mem_free, List.mem_singleton]
    constructor
    · rintro ⟨hmade, hnone⟩
      by_contra hne
      have hsome := hheld.others x hmade hne
      rw [hnone] at hsome
      cases hsome
    · rintro rfl
      exact ⟨made_node.mpr hheld.made, hheld.free⟩
  have htops : b.tops.Perm [whole] := by
    have hperm := hfree.filterMap b.element?
    rwa [List.filterMap_cons_some hwhole] at hperm
  refine ⟨whole, hwhole, ?_⟩
  have hperm := (htops.flatMap_right Tree.ids).symm.trans h.reached
  rwa [List.flatMap_singleton] at hperm

end Builder

end Stylesheet
