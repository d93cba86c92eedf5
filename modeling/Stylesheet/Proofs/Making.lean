import Stylesheet.Proofs.Placement
import Stylesheet.Proofs.Shapes
import Stylesheet.Proofs.Usage

/-!
# Drafts that a builder holds

While a style sheet is read a builder has made elements for some drafts, and the node that will hold
them is still to be made. These are all the free elements there are. So a node that takes the last
of them leaves the others, and what the builder's tables hold is what the drafts take up.

**Invariant (`Builder.Holds`).** It says which elements are free, that the slots tell the drafts of
them, and how far the tables go. A new token and a new node keep it, or there is not enough of some
resource.

Results:
* `Builder.Holds.token`: a builder makes a token for a piece, or there is too much of something.
* `Builder.Holds.node`: a builder makes a node for a composite, or there is too much of something.
-/
namespace Stylesheet

/-- A draft, and the element that was made for it. -/
abbrev Twin := Draft × ElementId

namespace Builder

/-- The free elements of a builder are those made for the given drafts. -/
structure Holds (b : Builder) (pending : List Twin) : Prop where
  sound : ∃ made, b.Sound made
  free : b.free.Perm (pending.map Prod.snd)
  trees : ∀ m ∈ pending, (b.element? m.2).map Tree.unnumbered = some m.1.element
  tokens : b.tokens.size = Draft.usage .tokens (pending.map Prod.fst)
  nodes : b.nodes.size = Draft.usage .nodes (pending.map Prod.fst)
  slots : b.slots.size = Draft.usage .slots (pending.map Prod.fst)

theorem holds_empty : empty.Holds [] where
  sound := ⟨[], sound_empty⟩
  free := List.Perm.refl _
  trees := nofun
  tokens := rfl
  nodes := rfl
  slots := rfl

namespace Holds

variable {b : Builder} {pending kept used : List Twin} {m : Twin} {slots : List (Option Twin)}
  {kind : Kind}

theorem formed (h : b.Holds pending) : b.Formed :=
  let ⟨_, hsound⟩ := h.sound
  hsound.formed

theorem mem_free (h : b.Holds pending) (hm : m ∈ pending) : m.2 ∈ b.free :=
  h.free.mem_iff.mpr (List.mem_map_of_mem hm)

theorem made (h : b.Holds pending) (hm : m ∈ pending) : b.made m.2 :=
  (Builder.mem_free.mp (h.mem_free hm)).1

/-- Where a node is all there is left to hold, it holds everything else. -/
theorem held {d : Draft} {root : Nat} (h : b.Holds [(d, .node root)]) : b.Held root := by
  have hfree (x : ElementId) : x ∈ b.free ↔ x = .node root := by
    rw [h.free.mem_iff, List.map_cons, List.map_nil, List.mem_singleton]
  have hroot := Builder.mem_free.mp ((hfree _).mpr rfl)
  refine ⟨Builder.made_node.mp hroot.1, hroot.2, fun x hx hne => ?_⟩
  by_contra hnone
  exact hne ((hfree x).mp (Builder.mem_free.mpr ⟨hx, by simpa using hnone⟩))

/-- An element is as wide as its draft. -/
theorem widthOf (h : b.Holds pending) (hm : m ∈ pending) :
    b.widthOf m.2 = m.1.element.usage .bytes := by
  obtain ⟨e, he, hwidth⟩ := h.formed.exists_element (h.made hm)
  have htree := h.trees m hm
  rw [he, Option.map_some, Option.some.injEq] at htree
  rw [← hwidth, htree, Tree.usage_bytes]

/-! ### Tokens -/

/-- The call that makes a token for a piece. -/
def callOf : Piece → Call
  | .run kind first more => .token (first.leading.map Gap.trivia) kind
    (Text.width (Piece.joinedText first more)) ((Piece.lastOf first more).trailing.map Gap.trivia)
  | .missing kind => .missing kind

theorem withToken (h : b.Holds pending) (hfits : b.tokens.size < sizeLimit) (p : Piece) :
    (b.withToken p.token).Holds (pending ++ [(.token p, .token b.tokens.size)]) := by
  obtain ⟨calls, hsound⟩ := h.sound
  have hcall : (callOf p).token? = some p.token ∧ (callOf p).node? = none := by
    cases p <;> exact ⟨rfl, rfl⟩
  refine ⟨⟨_, hsound.withToken hcall.1 hcall.2 hfits⟩, ?_, ?_, ?_, ?_, ?_⟩
  · rw [List.map_append]
    exact (b.free_withToken p.token).trans (h.free.append_right _)
  · intro m hm
    rw [h.formed.element?_withToken]
    rcases List.mem_append.mp hm with hm | hm
    · have hne : m.2 ≠ .token b.tokens.size := fun heq => b.not_made_token (heq ▸ h.made hm)
      rw [if_neg hne]
      exact h.trees m hm
    · rw [List.mem_singleton] at hm
      rw [hm, if_pos rfl]
      rfl
  · rw [size_tokens_withToken, h.tokens, List.map_append, Draft.usage_append]
    rfl
  · rw [List.map_append, Draft.usage_append]
    exact h.nodes
  · rw [List.map_append, Draft.usage_append]
    exact h.slots

/-- The call for a piece adds its token, unless the trivia around it are too wide. -/
theorem call_callOf (b : Builder) (p : Piece) :
    b.call (callOf p) = b.addToken p.token ∨
      (sizeLimit ≤ p.token.fullWidth ∧ b.call (callOf p) = .error .overflow) := by
  cases p with
  | missing kind => exact .inl rfl
  | run kind first more =>
    refine (b.token_cases _ kind _ _).imp_right fun ⟨hwide, herror⟩ => ⟨hwide.trans ?_, herror⟩
    exact Nat.add_le_add_right (Nat.le_add_right ..) _

/-- A builder makes a token for a piece, or there is too much of something. -/
theorem token (h : b.Holds pending) {p : Piece} (hp : p.token.kind.isToken) :
    (∃ x b', b.call (callOf p) = .ok (x, b') ∧ b'.Holds (pending ++ [(.token p, x)])) ∨
      (∃ e, b.call (callOf p) = .error e ∧ e.isLimit ∧
        ¬Draft.Fit (pending.map Prod.fst ++ [.token p])) := by
  rcases call_callOf b p with hadd | ⟨hwide, herror⟩
  · rw [hadd]
    rcases b.addToken_cases hp with ⟨hfits, hok⟩ | ⟨hfull, herror⟩
    · exact .inl ⟨_, _, hok, h.withToken hfits p⟩
    · refine .inr ⟨_, herror, rfl, fun hfit => ?_⟩
      have htokens := hfit .tokens
      rw [Draft.usage_append, ← h.tokens] at htokens
      have hone : b.tokens.size + 1 ≤ sizeLimit := htokens
      omega
  · refine .inr ⟨_, herror, rfl, fun hfit => ?_⟩
    have hbytes := hfit .bytes
    rw [Draft.usage_append] at hbytes
    have hone : Draft.usage .bytes (pending.map Prod.fst) + p.token.fullWidth ≤ sizeLimit - 1 :=
      hbytes
    have hlimit : 0 < sizeLimit := by decide
    omega

/-! ### Nodes -/

/-- The elements in some slots. -/
def idsOf (slots : List (Option Twin)) : List (Option ElementId) := slots.map (Option.map Prod.snd)

/-- The drafts in some slots. -/
def draftsOf (slots : List (Option Twin)) : List (Option Draft) := slots.map (Option.map Prod.fst)

theorem reduceOption_idsOf (hs : slots.reduceOption = used) :
    (idsOf slots).reduceOption = used.map Prod.snd := by
  rw [idsOf, List.reduceOption_map, hs]

theorem reduceOption_draftsOf (hs : slots.reduceOption = used) :
    (draftsOf slots).reduceOption = used.map Prod.fst := by
  rw [draftsOf, List.reduceOption_map, hs]

theorem free_idsOf (h : b.Holds (kept ++ used)) (hs : slots.reduceOption = used) :
    b.Free (idsOf slots) := by
  have hmem {x : ElementId} (hx : x ∈ (idsOf slots).reduceOption) : x ∈ b.free := by
    rw [reduceOption_idsOf hs] at hx
    rw [h.free.mem_iff, List.map_append]
    exact List.mem_append_right _ hx
  refine ⟨fun x hx => (Builder.mem_free.mp (hmem hx)).1,
    fun x hx => (Builder.mem_free.mp (hmem hx)).2, ?_⟩
  have hnodup := h.free.nodup_iff.mp b.nodup_free
  rw [List.map_append] at hnodup
  rw [reduceOption_idsOf hs]
  exact hnodup.of_append_right

/-- What a node would take up, all elements before it included. -/
theorem usage_node (hs : slots.reduceOption = used) (r : Resource) :
    Draft.usage r (kept.map Prod.fst ++ [Draft.composite kind (draftsOf slots)])
      = Draft.usage r ((kept ++ used).map Prod.fst) + (r.ofNode + r.ofSlot * slots.length) := by
  rw [Draft.usage_append, Draft.usage_cons, Draft.usage_nil, Draft.usage_composite,
    reduceOption_draftsOf hs, List.map_append, Draft.usage_append, draftsOf, List.length_map]
  omega

theorem widthOfAll_idsOf (h : b.Holds (kept ++ used)) (hs : slots.reduceOption = used) :
    b.widthOfAll (idsOf slots) = Draft.usage .bytes (used.map Prod.fst) := by
  have hwidth : ∀ m ∈ slots.reduceOption, b.widthOf m.2 = m.1.element.usage .bytes :=
    fun m hm => h.widthOf (List.mem_append_right _ (hs ▸ hm))
  subst hs
  clear h
  induction slots with
  | nil => rfl
  | cons slot slots ih =>
    cases slot with
    | none => exact ih hwidth
    | some m =>
      rw [List.reduceOption_cons_of_some] at hwidth
      have hrest := ih fun m hm => hwidth m (List.mem_cons_of_mem _ hm)
      rw [List.reduceOption_cons_of_some, List.map_cons, Draft.usage_cons, ← hrest,
        ← hwidth m List.mem_cons_self]
      rfl

/-- The slots of a new node tell its draft. -/
theorem unnumbered_idsOf (h : b.Holds (kept ++ used)) (hs : slots.reduceOption = used) :
    (Slots.ofList ((idsOf slots).map (·.bind b.element?))).map Prod.snd Prod.snd
      = (Slots.ofList (draftsOf slots)).map id Piece.token := by
  rw [Slots.map_ofList, Slots.map_ofList, idsOf, draftsOf, List.map_map, List.map_map, List.map_map]
  refine congrArg Slots.ofList (List.map_congr_left fun slot hslot => ?_)
  cases slot with
  | none => rfl
  | some m =>
    have hm : m ∈ used := hs ▸ List.reduceOption_mem_iff.mpr hslot
    exact h.trees m (List.mem_append_right _ hm)

theorem adopt (h : b.Holds (kept ++ used)) (hs : slots.reduceOption = used)
    (hroom : b.Room (idsOf slots)) :
    (b.adopt kind (idsOf slots)).Holds
      (kept ++ [(.composite kind (draftsOf slots), .node b.nodes.size)]) := by
  obtain ⟨calls, hsound⟩ := h.sound
  have hfree := h.free_idsOf hs
  have husage (r : Resource) : Draft.usage r
      ((kept ++ [(Draft.composite kind (draftsOf slots), ElementId.node b.nodes.size)]).map
        Prod.fst)
        = Draft.usage r ((kept ++ used).map Prod.fst) + (r.ofNode + r.ofSlot * slots.length) := by
    rw [List.map_append]
    exact usage_node hs r
  refine ⟨⟨_, hsound.adopt hfree hroom⟩, ?_, ?_, ?_, ?_, ?_⟩
  · obtain ⟨left, hold, hnew⟩ := hfree.free_adopt kind
    rw [reduceOption_idsOf hs] at hold
    have hleft : left.Perm (kept.map Prod.snd) := by
      refine (List.perm_append_left_iff (used.map Prod.snd)).mp ?_
      refine hold.symm.trans (h.free.trans ?_)
      rw [List.map_append]
      exact List.perm_append_comm
    rw [List.map_append]
    exact hnew.trans (hleft.append_right _)
  · intro m hm
    rw [h.formed.element?_adopt]
    rcases List.mem_append.mp hm with hm | hm
    · have hold := List.mem_append_left used hm
      rw [if_neg (ne_of_made (h.made hold))]
      exact h.trees m hold
    · rw [List.mem_singleton] at hm
      rw [hm, if_pos rfl]
      exact congrArg (some ∘ Tree.node kind) (h.unnumbered_idsOf hs)
  · rw [size_tokens_adopt, husage, ← h.tokens]
    simp [Resource.ofNode, Resource.ofSlot]
  · rw [size_nodes_adopt, husage, ← h.nodes]
    simp [Resource.ofNode, Resource.ofSlot]
  · rw [husage, ← h.slots]
    simp [Builder.adopt, idsOf, Resource.ofNode, Resource.ofSlot]

/-- Where there is enough for a node, its numbers and its size fit. -/
theorem room (h : b.Holds (kept ++ used)) (hs : slots.reduceOption = used)
    (hfit : Draft.Fit (kept.map Prod.fst ++ [Draft.composite kind (draftsOf slots)])) :
    b.Room (idsOf slots) := by
  have hnodes := hfit .nodes
  have hslots := hfit .slots
  have hbytes := hfit .bytes
  rw [usage_node hs] at hnodes hslots hbytes
  rw [← h.nodes] at hnodes
  rw [← h.slots] at hslots
  rw [List.map_append, Draft.usage_append, ← h.widthOfAll_idsOf hs] at hbytes
  have hlength : (idsOf slots).length = slots.length := List.length_map _
  have hlimit : 0 < sizeLimit := by decide
  simp only [Resource.ofNode, Resource.ofSlot, Resource.most] at hnodes hslots hbytes
  exact ⟨by omega, by omega, by omega, by omega⟩

/-- A builder makes a node for a composite, or there is too much of something. -/
theorem node (h : b.Holds (kept ++ used)) (hk : kind.isComposite)
    (hc : ∀ expected, kind.slotCount? = some expected → slots.length = expected)
    (hs : slots.reduceOption = used) :
    (∃ b', b.node kind (idsOf slots) = .ok (.node b.nodes.size, b') ∧
        b'.Holds (kept ++ [(.composite kind (draftsOf slots), .node b.nodes.size)])) ∨
      (∃ e, b.node kind (idsOf slots) = .error e ∧ e.isLimit ∧
        ¬Draft.Fit (kept.map Prod.fst ++ [.composite kind (draftsOf slots)])) := by
  have hcount (expected : Nat) (he : kind.slotCount? = some expected) :
      (idsOf slots).length = expected := by
    rw [idsOf, List.length_map, hc expected he]
  rcases node_cases h.formed hk (h.free_idsOf hs) hcount with ⟨hroom, hok⟩ | ⟨hroom, e, he, hlimit⟩
  · exact .inl ⟨_, hok, h.adopt hs hroom⟩
  · exact .inr ⟨e, he, hlimit, fun hfit => hroom (h.room hs hfit)⟩

end Holds

end Builder

end Stylesheet
