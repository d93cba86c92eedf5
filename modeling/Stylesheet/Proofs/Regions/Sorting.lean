import Stylesheet.Proofs.Regions

/-!
# Spans one behind the other

Spans that do not overlap and are not empty have one order. So a sorted list of some of them is known
by what is in it, and a walk over a part of a tree gives the sorted spans of the whole that lie in
the part: `Arranged` is what this takes.

Results:
* `Arranged.pairwise_classify`: sorted spans follow one another.
* `Arranged.classify_eq_filter`, `Arranged.classify_sublist`: the spans of a part of a tree.
-/
namespace Stylesheet

open Classification

namespace Span

/-- Of two spans that lie apart, the one that starts first stops first. -/
theorem Apart.before {a b : Span} (h : a.Apart b) (hle : a.start ≤ b.start)
    (hb : b.start < b.stop) : a.Before b := by
  unfold Apart Before at *
  omega

end Span

/-- No two spans of a tree overlap, and none is empty. -/
structure SyntaxTree.Arranged (tree : SyntaxTree) : Prop where
  once : tree.root.element.Everywhere Once
  full : ∀ t ∈ tree.slots.tokens, t.CommentsFull

namespace Place

variable {p : Place}

theorem perm_classify (p : Place) : (classify p).Perm p.spans := List.mergeSort_perm _ _

theorem pairwise_le_classify (p : Place) :
    (classify p).Pairwise fun a b => a.span.start ≤ b.span.start := by
  refine (List.pairwise_mergeSort ?_ ?_ p.spans).imp fun h => of_decide_eq_true h
  · intro a b c hab hbc
    simp only [decide_eq_true_eq] at hab hbc ⊢
    omega
  · intro a b
    simp only [Bool.or_eq_true, decide_eq_true_eq]
    omega

end Place

/-- Lists in the order of starts are known by what is in them. -/
theorem ClassifiedSpan.eq_of_perm {as bs : List ClassifiedSpan} (h : as.Perm bs)
    (ha : as.Pairwise fun a b => a.span.start < b.span.start)
    (hb : bs.Pairwise fun a b => a.span.start < b.span.start) : as = bs :=
  h.eq_of_pairwise (fun _ _ _ _ hab hba => absurd hab (Nat.lt_asymm hba)) ha hb

namespace SyntaxTree

variable {tree : SyntaxTree} {p q : Place} {s : ClassifiedSpan}

/-- Whether a place is below a node of a kind. -/
def Below (tree : SyntaxTree) (kind : Kind) (p : Place) : Prop :=
  ∃ q, tree.Has q ∧ q.kind = kind ∧ q.path <+: p.path ∧ q.path ≠ p.path

/-- It is enough to look at the starts of the path. -/
theorem below_iff {kind : Kind} : tree.Below kind p
    ↔ ∃ n < p.path.length, (tree.at? (p.path.take n)).any fun q => q.kind = kind := by
  constructor
  · rintro ⟨q, hq, hkind, hfront, hne⟩
    refine ⟨q.path.length, ?_, ?_⟩
    · exact Nat.lt_of_le_of_ne hfront.length_le fun h => hne (hfront.eq_of_length h)
    · rw [← List.prefix_iff_eq_take.mp hfront, hq]
      simpa using hkind
  · rintro ⟨n, hn, hany⟩
    obtain ⟨q, hq, hkind⟩ := (Option.any_eq_true _ _).mp hany
    have hpath := path_of_at? hq
    refine ⟨q, has_of_at? hq, of_decide_eq_true hkind, hpath ▸ List.take_prefix n p.path, ?_⟩
    intro heq
    have hlength := congrArg List.length (hpath.symm.trans heq)
    rw [List.length_take] at hlength
    omega

instance (kind : Kind) (p : Place) : Decidable (tree.Below kind p) :=
  decidable_of_iff' _ below_iff

theorem below_of_slot {kind : Kind} (hq : tree.Has q) (hp : some p ∈ q.slots)
    (h : tree.Below kind q ∨ q.kind = kind) : tree.Below kind p := by
  obtain ⟨i, hpath, -⟩ := at?_child hq hp
  rcases h with ⟨r, hr, hkind, hfront, -⟩ | hkind
  · refine ⟨r, hr, hkind, hpath ▸ hfront.trans (List.prefix_append _ _), fun heq => ?_⟩
    have hlength := hfront.length_le
    rw [heq, hpath, List.length_append, List.length_singleton] at hlength
    omega
  · exact ⟨q, hq, hkind, hpath ▸ List.prefix_append _ _, by simp [hpath]⟩

/-! ## Parts of a walk -/

theorem spans_sublist_of_slot (hp : some p ∈ q.slots) : p.spans.Sublist q.spans := by
  cases hq : q.element with
  | token t => rw [Place.slots, hq] at hp; cases hp
  | node kind slots =>
    obtain ⟨as, bs, hsplit⟩ := List.append_of_mem (Place.mem_children.mpr hp)
    rw [Place.spans_node hq, hsplit, List.flatMap_append, List.flatMap_cons]
    exact (List.sublist_append_left _ _).trans
      ((List.sublist_append_right _ _).trans (List.sublist_append_right _ _))

/-- The walk of a tree meets all that the walk of a part meets. -/
theorem Has.spans_sublist (hp : tree.Has p) : p.spans.Sublist tree.root.spans := by
  refine Has.induct (P := fun p => p.spans.Sublist tree.root.spans) ?_ ?_ hp
  · exact List.Sublist.refl _
  · intro q p _ hq hslot
    exact (spans_sublist_of_slot hslot).trans hq

/-- A node's text gets a role from a selector only. -/
theorem apart_of_ofElement (hn : p.isNode) (hk : q.kind ≠ .selector) (hp : some p ∈ q.slots)
    (hs : s ∈ ofElement q) : s.span.Apart p.fullSpan := by
  obtain ⟨r, role, hm, hspan⟩ := mem_ofElement hs
  obtain ⟨rfl, -⟩ := spanOf_eq_some hspan
  cases hm with
  | own ht => rw [Place.slots, ht] at hp; cases hp
  | slot hq hx hchild hr =>
    have hne : r ≠ p := by
      rintro rfl
      rw [hr] at hn
      cases hn
    have hslots := Place.apart_of_mem (Place.mem_children.mpr (Place.mem_slots_of_child? hchild))
      (Place.mem_children.mpr hp) hne
    exact hslots.mono r.textSpan_within ⟨Nat.le_refl _, Nat.le_refl _⟩
  | item hq => rw [Place.kind, hq] at hk; exact absurd rfl hk

/-- What a walk meets outside of a node that is below no selector lies apart from the node. -/
theorem Has.perm_spans (hp : tree.Has p) (hn : p.isNode) (hb : ¬tree.Below .selector p) :
    ∃ others, tree.root.spans.Perm (p.spans ++ others) ∧
      ∀ s ∈ others, s.span.Apart p.fullSpan := by
  revert hn hb
  refine Has.induct (P := fun p => p.isNode → ¬tree.Below .selector p →
    ∃ others, tree.root.spans.Perm (p.spans ++ others) ∧
      ∀ s ∈ others, s.span.Apart p.fullSpan) ?_ ?_ hp
  · exact fun _ _ => ⟨[], by rw [List.append_nil], nofun⟩
  · intro q p hq ih hslot hn hb
    obtain ⟨kind, slots, hnode⟩ : ∃ kind slots, q.element = .node kind slots := by
      cases hq' : q.element with
      | token t => rw [Place.slots, hq'] at hslot; cases hslot
      | node kind slots => exact ⟨kind, slots, rfl⟩
    obtain ⟨others, hperm, hapart⟩ := ih (by rw [Place.isNode, hnode]; rfl)
      fun h => hb (below_of_slot hq hslot (.inl h))
    obtain ⟨as, bs, hsplit⟩ := List.append_of_mem (Place.mem_children.mpr hslot)
    refine ⟨ofElement q ++ as.flatMap Place.spans ++ bs.flatMap Place.spans ++ others, ?_,
      fun s hs => ?_⟩
    · rw [Place.spans_node hnode, hsplit, List.flatMap_append, List.flatMap_cons,
        ← List.append_assoc (ofElement q)] at hperm
      rw [← List.append_assoc p.spans]
      exact hperm.trans ((List.perm_append_comm_assoc _ _ _).append_right others)
    · have hordered := q.pairwise_children
      rw [hsplit, List.pairwise_append, List.pairwise_cons] at hordered
      obtain ⟨-, ⟨hbs, -⟩, has⟩ := hordered
      have hchild {r : Place} (hr : r ∈ as ++ p :: bs) : tree.Has r :=
        hq.child (Place.mem_children.mp (hsplit ▸ hr))
      simp only [List.mem_append, List.mem_flatMap] at hs
      rcases hs with ((hs | ⟨r, hr, hs⟩) | ⟨r, hr, hs⟩) | hs
      · exact apart_of_ofElement hn (fun h => hb (below_of_slot hq hslot (.inr h))) hslot hs
      · have hwithin := (hchild (by simp [hr])).within_of_mem_spans hs
        exact .inl ((has r hr p List.mem_cons_self).mono hwithin ⟨Nat.le_refl _, Nat.le_refl _⟩)
      · have hwithin := (hchild (by simp [hr])).within_of_mem_spans hs
        exact .inr ((hbs r hr).mono ⟨Nat.le_refl _, Nat.le_refl _⟩ hwithin)
      · exact (hapart s hs).mono ⟨Nat.le_refl _, Nat.le_refl _⟩ (Place.fullSpan_within_of_slot hslot)

/-! ## Sorted spans -/

namespace Arranged

variable (h : tree.Arranged) (hp : tree.Has p)

include h hp

theorem filled (hs : s ∈ p.spans) : s.span.start < s.span.stop := hp.filled_of_mem_spans h.full hs

theorem pairwise_classify : (classify p).Pairwise fun a b => a.span.Before b.span := by
  have hapart := (hp.apart_spans (everywhere_at? h.once hp)).perm p.perm_classify.symm
    fun hab => hab.symm
  have hsorted := p.pairwise_le_classify.and hapart
  refine hsorted.imp_of_mem fun _ hb hab => ?_
  exact hab.2.before hab.1 (h.filled hp (p.perm_classify.mem_iff.mp hb))

theorem pairwise_start : (classify p).Pairwise fun a b => a.span.start < b.span.start := by
  refine (h.pairwise_classify hp).imp_of_mem fun ha _ hab => ?_
  exact Nat.lt_of_lt_of_le (h.filled hp (p.perm_classify.mem_iff.mp ha)) hab

/-- The spans of a node are those of the tree that lie in the node. -/
theorem classify_eq_filter (hn : p.isNode) (hb : ¬tree.Below .selector p) :
    classify p = (classify tree.root).filter fun s => s.span.Within p.fullSpan := by
  obtain ⟨others, hperm, hapart⟩ := hp.perm_spans hn hb
  apply ClassifiedSpan.eq_of_perm
  · refine p.perm_classify.trans ?_
    have hfilter := (tree.root.perm_classify.trans hperm).filter fun s => s.span.Within p.fullSpan
    rw [List.filter_append] at hfilter
    have hinside : (p.spans.filter fun s => s.span.Within p.fullSpan) = p.spans := by
      rw [List.filter_eq_self]
      exact fun s hs => decide_eq_true (hp.within_of_mem_spans hs)
    have houtside : (others.filter fun s => s.span.Within p.fullSpan) = [] := by
      rw [List.filter_eq_nil_iff]
      intro s hs hwithin
      have hroot : s ∈ tree.root.spans := hperm.mem_iff.mpr (List.mem_append_right _ hs)
      exact (of_decide_eq_true hwithin).not_apart (h.filled tree.has_root hroot) (hapart s hs)
    rw [hinside, houtside, List.append_nil] at hfilter
    exact hfilter.symm
  · exact h.pairwise_start hp
  · exact (h.pairwise_start tree.has_root).filter _

/-- The spans of any part are among those of the tree that lie in it, in the same order. -/
theorem classify_sublist :
    (classify p).Sublist ((classify tree.root).filter fun s => s.span.Within p.fullSpan) := by
  have hantisymm : Std.Antisymm fun a b : ClassifiedSpan => a.span.start < b.span.start :=
    ⟨fun _ _ hab hba => absurd hab (Nat.lt_asymm hba)⟩
  have hsub : (classify p).Subperm (classify tree.root) :=
    p.perm_classify.subperm.trans
      (hp.spans_sublist.subperm.trans tree.root.perm_classify.symm.subperm)
  have hsorted := List.sublist_of_subperm_of_pairwise hsub (h.pairwise_start hp)
    (h.pairwise_start tree.has_root)
  have hall : ((classify p).filter fun s => s.span.Within p.fullSpan) = classify p := by
    rw [List.filter_eq_self]
    exact fun s hs => decide_eq_true (hp.within_of_mem_spans (p.perm_classify.mem_iff.mp hs))
  rw [← hall]
  exact hsorted.filter _

end Arranged

end SyntaxTree

end Stylesheet
