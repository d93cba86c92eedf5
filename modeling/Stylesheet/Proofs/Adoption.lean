import Stylesheet.Proofs.Tables

/-!
# Adding a node

A call for a node fails or adds one element. Afterwards the old elements are as they were, but for
the parents of those that were taken.

**Taking (`Builder.take`, `Builder.adopt`).** The loop that fills the slots of a node takes the
elements one by one. What it leaves behind is said without the loop: each of them has the node as
its parent, and the slots stand behind those of the other nodes.

Results:
* `Builder.node_cases`: what a call for a node can do, and when it fails for size.
* `Builder.node_eq_ok`: what a call that made a node was given.
* `Builder.Formed.adopt`, `Builder.Formed.element?_adopt`: a new node keeps the invariant and the
  old trees.
-/
namespace Stylesheet.Builder

variable {b b' : Builder} {x y : ElementId} {xs : List (Option ElementId)} {kind : Kind}
  {n node : Nat} {t : Token}

/-! ## Taking -/

/-- Elements that a node can take: no node holds them, and none of them comes twice. -/
structure Free (b : Builder) (xs : List (Option ElementId)) : Prop where
  made : ∀ x ∈ xs.reduceOption, b.made x
  free : ∀ x ∈ xs.reduceOption, b.parent? x = none
  once : xs.reduceOption.Nodup

theorem attach_eq_ok (h : b.attach x node = .ok b') :
    b.made x ∧ b.parent? x = none ∧ b' = b.setParent x node := by
  unfold attach at h
  split at h
  · next hx =>
    cases hparent : b.parent? x with
    | some _ => rw [hparent] at h; cases h
    | none =>
      rw [hparent] at h
      cases h
      exact ⟨hx, rfl, rfl⟩
  · cases h

theorem attach_ok (hx : b.made x) (hfree : b.parent? x = none) (node : Nat) :
    b.attach x node = .ok (b.setParent x node) := by
  rw [attach, if_pos hx, hfree]

/-- Looking up a width and looking whether it fits is one check. -/
theorem checkedWidth_eq (hx : b.made x) (hn : ∀ n, b.widthOf (.node n) < sizeLimit) :
    b.checkedWidth x = fitting (b.widthOf x) .overflow := by
  cases x with
  | token n =>
    have hlt := made_token.mp hx
    simp only [checkedWidth, widthOf, Array.getElem?_eq_getElem hlt]
    exact TokenData.checkedWidth_eq _
  | node n =>
    have hlt := made_node.mp hx
    have hfits := hn n
    simp only [checkedWidth, widthOf, Array.getElem?_eq_getElem hlt, Option.map_some,
      Option.getD_some] at hfits ⊢
    rw [fitting, if_pos hfits]

theorem Free.setParent (h : b.Free (some x :: xs)) (node : Nat) : (b.setParent x node).Free xs := by
  have hall : ∀ y ∈ xs.reduceOption, y ∈ (some x :: xs).reduceOption := fun y hy => by
    rw [List.reduceOption_cons_of_some]
    exact List.mem_cons_of_mem _ hy
  have honce := h.once
  rw [List.reduceOption_cons_of_some, List.nodup_cons] at honce
  refine ⟨fun y hy => ?_, fun y hy => ?_, honce.2⟩
  · rw [made_setParent]
    exact h.made y (hall y hy)
  · have hne : y ≠ x := fun he => honce.1 (he ▸ hy)
    rw [parent?_setParent (h.made x (by simp)), if_neg hne]
    exact h.free y (hall y hy)

/-- Elements can be taken where the first one can, and the others can once it was taken. -/
theorem free_cons (node : Nat) : b.Free (some x :: xs) ↔
    b.made x ∧ b.parent? x = none ∧ (b.setParent x node).Free xs := by
  constructor
  · intro h
    exact ⟨h.made x (by simp), h.free x (by simp), h.setParent node⟩
  · rintro ⟨hx, hfree, hrest⟩
    refine ⟨?_, ?_, ?_⟩ <;> rw [List.reduceOption_cons_of_some]
    · exact List.forall_mem_cons.mpr
        ⟨hx, fun y hy => (made_setParent b x y node).symm.trans (hrest.made y hy)⟩
    · refine List.forall_mem_cons.mpr ⟨hfree, fun y hy => ?_⟩
      have hparent := hrest.free y hy
      rw [parent?_setParent hx] at hparent
      split at hparent
      · cases hparent
      · exact hparent
    · refine List.nodup_cons.mpr ⟨fun hmem => ?_, hrest.once⟩
      -- what was taken is not free any more
      have hparent := hrest.free x hmem
      rw [parent?_setParent hx, if_pos rfl] at hparent
      cases hparent

theorem free_withSlots {slots : Array (Option ElementId)} :
    ({ b with slots := slots } : Builder).Free xs ↔ b.Free xs :=
  ⟨fun h => ⟨h.made, h.free, h.once⟩, fun h => ⟨h.made, h.free, h.once⟩⟩

/-- Elements that can be taken are taken, unless their sizes do not fit together. -/
theorem fill_eq {width : Nat} (h : b.Free xs) (hn : ∀ n, b.widthOf (.node n) < sizeLimit)
    (hw : width < sizeLimit) :
    b.fill node width xs = (fitting (width + b.widthOfAll xs) .overflow).map fun width =>
      ({ b.take xs.reduceOption node with slots := b.slots ++ xs.toArray }, width) := by
  induction xs generalizing b width with
  | nil => simp [fill, widthOfAll, fitting, hw, Except.map]
  | cons x xs ih =>
    have hslots : b.slots.push x ++ xs.toArray = b.slots ++ (x :: xs).toArray := by
      apply Array.ext'
      simp
    cases x with
    | none =>
      have hrest : ({ b with slots := b.slots.push none } : Builder).Free xs :=
        free_withSlots.mpr ⟨h.made, h.free, h.once⟩
      have hall :
          ({ b with slots := b.slots.push none } : Builder).widthOfAll xs = b.widthOfAll xs :=
        widthOfAll_congr fun _ _ => rfl
      rw [fill, ih hrest hn hw, hall, take_withSlots, hslots]
      rfl
    | some x =>
      obtain ⟨hx, hnone, hleft⟩ := (free_cons node).mp h
      have hattach : b.attach x node = .ok (b.setParent x node) := attach_ok hx hnone node
      have hwidth : (b.setParent x node).checkedWidth x = fitting (b.widthOf x) .overflow := by
        rw [checkedWidth_eq (by simpa using hx) (by simpa using hn), widthOf_setParent]
      have hrest : ({ b.setParent x node with
          slots := (b.setParent x node).slots.push (some x) } : Builder).Free xs :=
        free_withSlots.mpr hleft
      have hall : ({ b.setParent x node with
          slots := (b.setParent x node).slots.push (some x) } : Builder).widthOfAll xs
            = b.widthOfAll xs :=
        widthOfAll_congr fun y _ => widthOf_setParent b x y node
      rw [fill, hattach, ok_bind, hwidth, widthOfAll_cons, ← Nat.add_assoc]
      by_cases hone : width + b.widthOf x < sizeLimit
      · have hfits : fitting (b.widthOf x) .overflow = .ok (b.widthOf x) := if_pos (by omega)
        have hadd : checkedAdd width (b.widthOf x) = .ok (width + b.widthOf x) := if_pos hone
        have hnarrow : ∀ n, (b.setParent x node).widthOf (.node n) < sizeLimit := by simpa using hn
        rw [hfits, ok_bind, hadd, ok_bind, ih hrest hnarrow hone, hall, take_withSlots,
          slots_setParent, hslots]
        rfl
      · -- the sum so far does not fit, so the whole sum does not fit either
        have htotal :
            fitting (width + b.widthOf x + b.widthOfAll xs) .overflow = .error .overflow :=
          if_neg (by omega)
        have hadd : checkedAdd width (b.widthOf x) = .error .overflow := if_neg hone
        rw [htotal]
        unfold fitting
        split
        · rw [ok_bind, hadd]
          rfl
        · rfl

theorem free_of_fill {width : Nat} {r : Builder × Nat} (h : b.fill node width xs = .ok r) :
    b.Free xs := by
  induction xs generalizing b width with
  | nil => exact ⟨by simp, by simp, List.nodup_nil⟩
  | cons x xs ih =>
    cases x with
    | none =>
      have hrest := free_withSlots.mp (ih h)
      exact ⟨hrest.made, hrest.free, hrest.once⟩
    | some x =>
      rw [fill] at h
      obtain ⟨b₁, hattach, h⟩ := bind_eq_ok.mp h
      obtain ⟨hx, hnone, rfl⟩ := attach_eq_ok hattach
      obtain ⟨w, -, h⟩ := bind_eq_ok.mp h
      obtain ⟨total, -, h⟩ := bind_eq_ok.mp h
      exact (free_cons node).mpr ⟨hx, hnone, free_withSlots.mp (ih h)⟩

/-! ## Making a node -/

/-- A builder with one more node, that holds some elements and is held by none. -/
def adopt (b : Builder) (kind : Kind) (xs : List (Option ElementId)) : Builder :=
  let taken := b.take xs.reduceOption b.nodes.size
  { taken with
    slots := b.slots ++ xs.toArray
    nodes := taken.nodes.push ⟨kind, b.slots.size, xs.length, none, b.widthOfAll xs, 0⟩ }

/-- Whether the numbers and sizes of one more node fit. -/
def Room (b : Builder) (xs : List (Option ElementId)) : Prop :=
  b.nodes.size < sizeLimit ∧ b.widthOfAll xs < sizeLimit ∧ b.slots.size < sizeLimit ∧
    xs.length < sizeLimit

theorem checkCount_eq_ok {count : Nat} :
    checkCount kind count = .ok () ↔
      ∀ expected, kind.slotCount? = some expected → count = expected := by
  unfold checkCount
  cases kind.slotCount? with
  | none => simp
  | some expected => by_cases h : count = expected <;> simp [h]

theorem node_cases (hb : b.Formed) (hk : kind.isComposite) (h : b.Free xs)
    (hc : ∀ expected, kind.slotCount? = some expected → xs.length = expected) :
    (b.Room xs ∧ b.node kind xs = .ok (.node b.nodes.size, b.adopt kind xs)) ∨
      (¬b.Room xs ∧ ∃ e, b.node kind xs = .error e ∧ e.isLimit) := by
  have hfill := @fill_eq _ _ b.nodes.size _ h hb.narrow (by decide : 0 < sizeLimit)
  have hcount : (b.slots ++ xs.toArray).size - b.slots.size = xs.length := by simp
  rw [Nat.zero_add] at hfill
  have hnode : b.node kind xs = do
      let number ← fitting b.nodes.size .tooManyNodes
      let filled ← b.fill number 0 xs
      checkCount kind (filled.1.slots.size - b.slots.size)
      let start ← fitting b.slots.size .tooManySlots
      let count ← fitting (filled.1.slots.size - b.slots.size) .tooManySlots
      return (.node number, { filled.1 with
        nodes := filled.1.nodes.push ⟨kind, start, count, none, filled.2, 0⟩ }) := by
    simp only [node, hk]
    rfl
  rw [hnode]
  unfold Room
  by_cases hn : b.nodes.size < sizeLimit
  · rw [show fitting b.nodes.size .tooManyNodes = .ok b.nodes.size from if_pos hn, ok_bind, hfill]
    by_cases hw : b.widthOfAll xs < sizeLimit
    · rw [show fitting (b.widthOfAll xs) .overflow = .ok _ from if_pos hw]
      simp only [Except.map, ok_bind, hcount, checkCount_eq_ok.mpr hc]
      by_cases hs : b.slots.size < sizeLimit
      · rw [show fitting b.slots.size .tooManySlots = .ok _ from if_pos hs, ok_bind]
        by_cases hl : xs.length < sizeLimit
        · rw [show fitting xs.length .tooManySlots = .ok _ from if_pos hl]
          exact .inl ⟨⟨hn, hw, hs, hl⟩, rfl⟩
        · rw [show fitting xs.length .tooManySlots = .error _ from if_neg hl]
          exact .inr ⟨fun hroom => hl hroom.2.2.2, _, rfl, rfl⟩
      · rw [show fitting b.slots.size .tooManySlots = .error _ from if_neg hs]
        exact .inr ⟨fun hroom => hs hroom.2.2.1, _, rfl, rfl⟩
    · rw [show fitting (b.widthOfAll xs) .overflow = .error _ from if_neg hw]
      exact .inr ⟨fun hroom => hw hroom.2.1, _, rfl, rfl⟩
  · rw [show fitting b.nodes.size .tooManyNodes = .error _ from if_neg hn]
    exact .inr ⟨fun hroom => hn hroom.1, _, rfl, rfl⟩

theorem node_eq_ok (hb : b.Formed) (h : b.node kind xs = .ok (x, b')) :
    kind.isComposite ∧ b.Free xs ∧
      (∀ expected, kind.slotCount? = some expected → xs.length = expected) ∧ b.Room xs ∧
      x = .node b.nodes.size ∧ b' = b.adopt kind xs := by
  obtain ⟨hk, hfree, hc⟩ : kind.isComposite ∧ b.Free xs ∧
      ∀ expected, kind.slotCount? = some expected → xs.length = expected := by
    cases hk : kind.isComposite with
    | false =>
      simp only [node, hk] at h
      cases h
    | true =>
      simp only [node, hk] at h
      obtain ⟨-, -, h⟩ := bind_eq_ok.mp h
      obtain ⟨number, -, h⟩ := bind_eq_ok.mp h
      obtain ⟨⟨filled, width⟩, hfill, h⟩ := bind_eq_ok.mp h
      obtain ⟨_, hcount, -⟩ := bind_eq_ok.mp h
      have hfree := free_of_fill hfill
      refine ⟨rfl, hfree, ?_⟩
      rw [fill_eq hfree hb.narrow (by decide : 0 < sizeLimit)] at hfill
      have hslots : filled.slots = b.slots ++ xs.toArray := by
        unfold fitting at hfill
        split at hfill <;> cases hfill
        rfl
      rw [hslots] at hcount
      simpa using checkCount_eq_ok.mp hcount
  rcases node_cases hb hk hfree hc with ⟨hroom, hok⟩ | ⟨-, e, herror, -⟩
  · rw [hok] at h
    cases h
    exact ⟨hk, hfree, hc, hroom, rfl, rfl⟩
  · rw [herror] at h
    cases h

/-! ## What a new node looks like -/

/-- Taking elements changes nothing of the rows but who holds them. -/
theorem map_nodes_take {β : Type} {f : NodeData → β}
    (h : ∀ data parent, f { data with parent := parent } = f data) (b : Builder)
    (taken : List ElementId) (node n : Nat) :
    ((b.take taken node).nodes[n]?).map f = (b.nodes[n]?).map f := by
  induction taken generalizing b with
  | nil => rfl
  | cons x taken ih =>
    rw [take_cons, ih]
    cases x with
    | token m => rfl
    | node m => exact map_getElem?_modify b.nodes m n fun data => h data _

@[simp] theorem size_tokens_adopt (b : Builder) (kind : Kind) (xs : List (Option ElementId)) :
    (b.adopt kind xs).tokens.size = b.tokens.size := by
  simp [adopt]

@[simp] theorem size_nodes_adopt (b : Builder) (kind : Kind) (xs : List (Option ElementId)) :
    (b.adopt kind xs).nodes.size = b.nodes.size + 1 := by
  simp [adopt]

@[simp] theorem slots_adopt (b : Builder) (kind : Kind) (xs : List (Option ElementId)) :
    (b.adopt kind xs).slots = b.slots ++ xs.toArray := rfl

@[simp] theorem madeTokens_adopt (b : Builder) (kind : Kind) (xs : List (Option ElementId)) :
    (b.adopt kind xs).madeTokens = b.madeTokens :=
  madeTokens_take b xs.reduceOption b.nodes.size

theorem slotsIn_append {data : NodeData} (h : data.slotsStart + data.slotCount ≤ b.slots.size)
    (hslots : b'.slots = b.slots ++ xs.toArray) : b'.slotsIn data = b.slotsIn data := by
  have hnone : data.slotsStart + data.slotCount - b.slots.size = 0 := by omega
  rw [slotsIn, slotsIn, hslots, Array.extract_append, hnone]
  simp

theorem slotsIn_new {data : NodeData} (hstart : data.slotsStart = b.slots.size)
    (hcount : data.slotCount = xs.length) (hslots : b'.slots = b.slots ++ xs.toArray) :
    b'.slotsIn data = xs := by
  rw [slotsIn, hslots, hstart, hcount, Array.extract_append_right]
  simp

/-- The rows of a builder behind those of the nodes that were there before. -/
theorem getElem?_nodes_adopt (b : Builder) (kind : Kind) (xs : List (Option ElementId)) (n : Nat) :
    (b.adopt kind xs).nodes[n]? = if n = b.nodes.size then
        some ⟨kind, b.slots.size, xs.length, none, b.widthOfAll xs, 0⟩
      else (b.take xs.reduceOption b.nodes.size).nodes[n]? := by
  rw [adopt, Array.getElem?_push, size_nodes_take]

theorem Formed.shapes_adopt (hb : b.Formed) (kind : Kind) (xs : List (Option ElementId)) :
    (b.adopt kind xs).shapes = b.shapes ++ [(kind, xs)] := by
  refine List.ext_getElem? fun n => ?_
  rw [getElem?_shapes, getElem?_nodes_adopt]
  by_cases hn : n = b.nodes.size
  · have hnew : (b.adopt kind xs).slotsIn ⟨kind, b.slots.size, xs.length, none, b.widthOfAll xs, 0⟩
        = xs := slotsIn_new rfl rfl rfl
    rw [if_pos hn, Option.map_some, hnew, hn, ← length_shapes]
    simp
  · rw [if_neg hn, map_nodes_take (fun _ _ => rfl)]
    have hold : (b.nodes[n]?).map (fun data => (data.kind, (b.adopt kind xs).slotsIn data))
        = b.shapes[n]? := by
      rw [getElem?_shapes]
      cases hdata : b.nodes[n]? with
      | none => rfl
      | some data =>
        rw [Option.map_some, Option.map_some,
          slotsIn_append (hb.range n data hdata) (slots_adopt ..)]
    rw [hold]
    rcases Nat.lt_or_gt_of_ne hn with h | h
    · rw [List.getElem?_append_left (by simpa using h)]
    · rw [List.getElem?_eq_none (by simp; omega), List.getElem?_eq_none (by simp; omega)]

theorem parent?_adopt (hfree : b.Free xs) (x : ElementId) :
    (b.adopt kind xs).parent? x
      = if x ∈ xs.reduceOption then some b.nodes.size else b.parent? x := by
  rw [← parent?_take hfree.made]
  cases x with
  | token n => rfl
  | node n =>
    rw [parent?, getElem?_nodes_adopt]
    split
    · next h =>
      -- the new node was not there, so it is held by none
      rw [parent?, Array.getElem?_eq_none (by simp [h])]
      rfl
    · rfl

theorem ne_of_made (hx : b.made x) : x ≠ .node b.nodes.size := by
  rintro rfl
  exact Nat.lt_irrefl _ (made_node.mp hx)

theorem widthOf_adopt (hx : x ≠ .node b.nodes.size) (kind : Kind) (xs : List (Option ElementId)) :
    (b.adopt kind xs).widthOf x = b.widthOf x := by
  rw [← widthOf_take b xs.reduceOption b.nodes.size]
  cases x with
  | token n => rfl
  | node n =>
    have hn : n ≠ b.nodes.size := fun h => hx (congrArg _ h)
    rw [widthOf, widthOf, getElem?_nodes_adopt, if_neg hn]

theorem widthOf_adopt_new (b : Builder) (kind : Kind) (xs : List (Option ElementId)) :
    (b.adopt kind xs).widthOf (.node b.nodes.size) = b.widthOfAll xs := by
  rw [widthOf, getElem?_nodes_adopt, if_pos rfl]
  rfl

theorem Free.widthOfAll_adopt (hfree : b.Free xs) (kind : Kind) :
    (b.adopt kind xs).widthOfAll xs = b.widthOfAll xs :=
  widthOfAll_congr fun x hx => widthOf_adopt (ne_of_made (hfree.made x hx)) kind xs

/-- A shape of a builder with one more node is that node's or an old one. -/
theorem Formed.shape_adopt {kind' : Kind} {xs' : List (Option ElementId)} (hb : b.Formed)
    (h : (b.adopt kind xs).shapes[n]? = some (kind', xs')) :
    b.shapes[n]? = some (kind', xs') ∨ n = b.nodes.size ∧ kind' = kind ∧ xs' = xs := by
  rw [hb.shapes_adopt] at h
  rcases Nat.lt_trichotomy n b.shapes.length with hn | hn | hn
  · rw [List.getElem?_append_left hn] at h
    exact .inl h
  · subst hn
    simp only [List.getElem?_concat_length, Option.some.injEq, Prod.mk.injEq] at h
    exact .inr ⟨length_shapes b, h.1.symm, h.2.symm⟩
  · rw [List.getElem?_eq_none (by rw [List.length_append, List.length_singleton]; exact hn)] at h
    cases h

theorem Formed.forest_adopt (hb : b.Formed) (kind : Kind) (xs : List (Option ElementId)) :
    (b.adopt kind xs).forest
      = b.forest.push (.node (b.nodes.size, kind) (Slots.ofList (xs.map (·.bind b.element?)))) := by
  rw [forest, hb.shapes_adopt, madeTokens_adopt, forestOf_concat, size_forestOf, length_shapes]
  rfl

theorem Formed.element?_adopt (hb : b.Formed) (kind : Kind) (xs : List (Option ElementId))
    (x : ElementId) : (b.adopt kind xs).element? x
      = if x = .node b.nodes.size then
          some (.node (b.nodes.size, kind) (Slots.ofList (xs.map (·.bind b.element?))))
        else b.element? x := by
  rw [element?, hb.forest_adopt, madeTokens_adopt]
  cases x with
  | token n => rfl
  | node n =>
    have hsize : b.forest.size = b.nodes.size := by rw [forest, size_forestOf, length_shapes]
    simp only [treeBelow?, Array.getElem?_push, hsize, ElementId.node.injEq]
    rfl

/-- A row of a builder with one more node is that node's, or it has its slots where an old one
has. -/
theorem row_adopt {data : NodeData} (h : (b.adopt kind xs).nodes[n]? = some data) :
    data = ⟨kind, b.slots.size, xs.length, none, b.widthOfAll xs, 0⟩ ∨
      ∃ row, b.nodes[n]? = some row ∧ row.slotsStart = data.slotsStart ∧
        row.slotCount = data.slotCount := by
  rw [getElem?_nodes_adopt] at h
  split at h
  · exact .inl (Option.some.inj h).symm
  · have hrow := map_nodes_take (f := fun data => (data.slotsStart, data.slotCount))
      (fun _ _ => rfl) b xs.reduceOption b.nodes.size n
    rw [h, Option.map_some, eq_comm, Option.map_eq_some_iff] at hrow
    obtain ⟨row, hrow, hsame⟩ := hrow
    exact .inr ⟨row, hrow, Prod.mk.inj hsame⟩

theorem Formed.adopt (hb : b.Formed) (hfree : b.Free xs) (hroom : b.Room xs) (kind : Kind) :
    (b.adopt kind xs).Formed where
  range n data hdata := by
    have hsize : (b.adopt kind xs).slots.size = b.slots.size + xs.length := by simp
    rw [hsize]
    rcases row_adopt hdata with rfl | ⟨row, hrow, hstart, hcount⟩
    · exact Nat.le_refl _
    · have hle := hb.range n row hrow
      omega
  older n kind' xs' hn x hx := by
    rcases hb.shape_adopt hn with hold | ⟨rfl, rfl, rfl⟩
    · have hx := hb.older n kind' xs' hold x hx
      cases x with
      | token m => simpa [Older] using hx
      | node m => exact hx
    · have hx := hfree.made x (List.reduceOption_mem_iff.mpr hx)
      cases x with
      | token m => simpa [Older] using made_token.mp hx
      | node m => exact made_node.mp hx
  width n kind' xs' hn := by
    rcases hb.shape_adopt hn with hold | ⟨rfl, rfl, rfl⟩
    · have hlt : n < b.shapes.length := (List.getElem?_eq_some_iff.mp hold).1
      have hmade : b.made (.node n) := made_node.mpr (by simpa using hlt)
      rw [widthOf_adopt (ne_of_made hmade), hb.width n kind' xs' hold]
      refine (widthOfAll_congr fun x hx => ?_).symm
      exact widthOf_adopt (ne_of_made (hb.made hold (List.reduceOption_mem_iff.mp hx))) kind xs
    · rw [widthOf_adopt_new, hfree.widthOfAll_adopt]
  narrow n := by
    by_cases hn : n = b.nodes.size
    · rw [hn, widthOf_adopt_new]
      exact hroom.2.1
    · rw [widthOf_adopt fun h => hn (ElementId.node.inj h)]
      exact hb.narrow n
  numbers := ⟨by simpa using hb.numbers.1, by rw [size_nodes_adopt]; exact hroom.1⟩
  starts n data hdata := by
    rcases row_adopt hdata with rfl | ⟨row, hrow, hstart, -⟩
    · exact hroom.2.2.1
    · exact hstart ▸ hb.starts n row hrow

end Stylesheet.Builder
