import Stylesheet.Proofs.Placement
import Stylesheet.Proofs.Places

/-!
# Finished trees

A finished tree stores who holds an element, where it starts, how wide it is and which token comes
where. All of it agrees with the slots: a walk through them comes to each element once, the parent
of an element is the node with the element in a slot, and elements start and end as the widths say.

**Reading.** `Arena.tree` is what the slots tell, and a place in it has a position that is computed.
A path of slots leads to the same element in both, and to the position that is stored.

Results:
* `Arena.Whole`: what is sure of a finished tree.
* `Builder.Sound.whole`, `Builder.finish_whole`: a tree that `finish` returns is like that.
-/
namespace Stylesheet

mutual

/-- The tokens of a tree in the order in which a walk comes to them. -/
theorem Tree.filterMap_ids (e : Numbered) :
    e.ids.filterMap ElementId.token? = e.tokens.map Prod.fst := by
  match e with
  | .token (number, t) => rfl
  | .node (number, kind) slots => exact Slots.filterMap_allIds slots

theorem Slots.filterMap_allIds (s : NumberedSlots) :
    s.allIds.filterMap ElementId.token? = s.tokens.map Prod.fst := by
  match s with
  | .nil => rfl
  | .empty rest => exact Slots.filterMap_allIds rest
  | .filled e rest =>
    rw [Slots.allIds, List.filterMap_append, Tree.filterMap_ids e, Slots.filterMap_allIds rest,
      Slots.tokens, List.map_append]

end

namespace Builder

variable {b : Builder} {x : ElementId} {xs : List (Option ElementId)} {kind : Kind} {n : Nat}

theorem below_token (h : b.made (.token n)) : b.below (.token n) = [.token n] := by
  obtain ⟨t, ht⟩ := exists_token h
  rw [below, element?_token ht]
  rfl

theorem Formed.below_node (hb : b.Formed) (h : b.made (.node n)) :
    b.below (.node n) = .node n :: (b.slotsOf n).reduceOption.flatMap b.below := by
  obtain ⟨kind, xs, hn⟩ := exists_shape h
  have hall : xs.reduceOption.flatMap b.below
      = (xs.reduceOption.filterMap b.element?).flatMap Tree.ids := by
    rw [List.filterMap_eq_flatMap_toList, List.flatMap_assoc]
    refine List.flatMap_congr fun x _ => ?_
    rw [below]
    cases b.element? x <;> simp
  rw [slotsOf_of_shape hn, hall, below, hb.element?_node hn, Option.map_some, Option.getD_some,
    Tree.ids, Slots.allIds_eq_flatMap, Slots.toList_ofList, reduceOption_map_bind]

/-- The places of what stands in some slots. -/
theorem Formed.places_ofList (hb : b.Formed) (h : ∀ x, some x ∈ xs → b.made x) (path : List Nat)
    (index position i : Nat) :
    (((Slots.ofList (xs.map (·.bind b.element?))).map Prod.snd Prod.snd).places path index
        position)[i]?
      = (xs[i]?).map fun slot => (slot.bind b.element?).map fun e =>
          ⟨path ++ [index + i], position + b.widthOfAll (xs.take i), e.unnumbered⟩ := by
  induction xs generalizing index position i with
  | nil => rfl
  | cons x xs ih =>
    have hrest := ih fun y hy => h y (List.mem_cons_of_mem _ hy)
    cases x with
    | none =>
      cases i with
      | zero => rfl
      | succ i =>
        rw [List.map_cons, Option.bind_none, Slots.ofList, Slots.map, Slots.places,
          List.getElem?_cons_succ, List.getElem?_cons_succ, hrest, Nat.add_right_comm,
          List.take_succ_cons]
        rfl
    | some x =>
      obtain ⟨e, he, hwidth⟩ := hb.exists_element (h x List.mem_cons_self)
      rw [List.map_cons, Option.bind_some, he, Slots.ofList, Slots.map, Slots.places]
      cases i with
      | zero =>
        rw [List.getElem?_cons_zero, List.getElem?_cons_zero, Option.map_some, Option.bind_some, he]
        rfl
      | succ i =>
        rw [List.getElem?_cons_succ, List.getElem?_cons_succ, hrest, Nat.add_right_comm,
          List.take_succ_cons, widthOfAll_cons, ← hwidth, Nat.add_assoc position]
        rfl

end Builder

namespace Arena

variable {a : Arena} {x : ElementId} {made : List Builder.Call} {text : Text} {root : Nat}

/-- Whether tokens follow one another without a gap, from one offset to another one. -/
def Contiguous (a : Arena) (start stop : Nat) : List Nat → Prop
  | [] => start = stop
  | n :: rest =>
    a.position? (.token n) = some start ∧ a.Contiguous (start + a.widthOf (.token n)) stop rest

/-- Elements without a gap are stored without one. -/
theorem contiguous_of_gapless {start stop : Nat} {l : List (ElementId × Nat)}
    (hposition : ∀ x position, (x, position) ∈ l → a.position? x = some position)
    (h : a.Gapless start stop l) : a.Contiguous start stop (tokensAmong l) := by
  induction l generalizing start with
  | nil => exact h
  | cons entry l ih =>
    obtain ⟨x, position⟩ := entry
    have hrest := fun y p hy => hposition y p (List.mem_cons_of_mem _ hy)
    cases x with
    | token n =>
      obtain ⟨rfl, h⟩ := h
      exact ⟨hposition _ _ List.mem_cons_self, ih hrest h⟩
    | node n => exact ih hrest h

/-- What is sure of a tree that was finished after the given calls: what is stored about an element
agrees with what the slots tell. -/
structure Whole (made : List Builder.Call) (text : Text) (root : Nat) (a : Arena) : Prop where
  source : a.text = text
  top : a.root = root
  /-- The tokens are those that were made, and the slots hold what the calls asked for. -/
  tokens : a.madeTokens.toList = Builder.tokenCalls made
  nodes : a.shapes = Builder.nodeCalls made
  rooted : a.made (.node root)
  /-- A walk goes from a node through its slots. -/
  leaf : ∀ n, a.made (.token n) → a.below (.token n) = [.token n]
  branch : ∀ n, a.made (.node n) →
    a.below (.node n) = .node n :: (a.slotsOf n).reduceOption.flatMap a.below
  /-- A walk from the root comes to each element once. -/
  reached : a.walk.Perm a.ids
  parent : ∀ x n, a.parent? x = some n ↔ some x ∈ a.slotsOf n
  root_free : a.parent? (.node root) = none
  held : ∀ x, a.made x → x ≠ .node root → (a.parent? x).isSome
  /-- No element is in two slots of a node. -/
  once : ∀ n, (a.slotsOf n).reduceOption.Nodup
  /-- Every token is in the list of tokens once, and they stand there as in a walk. -/
  all : a.tokenList.Perm (List.range a.tokens.size)
  preorder : a.tokenList = a.walk.filterMap ElementId.token?
  descendants : a.tokenList = a.descendantTokens root
  /-- The order of a token is its index. -/
  order : ∀ n, a.made (.token n) → ∀ i, a.order? n = some i ↔ a.tokenList[i]? = some n
  root_position : a.position? (.node root) = some 0
  /-- An element starts where the node does, behind what stands in the slots before it. -/
  position : ∀ n i x, (a.slotsOf n)[i]? = some (some x) →
    a.position? x = (a.position? (.node n)).map (· + a.widthOfAll ((a.slotsOf n).take i))
  positions : ∀ x, a.made x → (a.position? x).isSome
  /-- A node is as wide as what it holds. -/
  width : ∀ n, a.made (.node n) → a.fullWidth? (.node n) = some (a.widthOfAll (a.slotsOf n))
  widths : ∀ x, a.made x → a.fullWidth? x = some (a.widthOf x)
  /-- The tokens leave no gap in the text. -/
  contiguous : a.Contiguous 0 (Text.width text) a.tokenList
  /-- A path leads to what is read there, and that is where it is stored to stand. -/
  view : ∀ path, a.tree.at? path = (a.at? path).bind (a.place? path)

/-! ## Looking at what is stored -/

theorem text_tree (a : Arena) : a.tree.text = a.text := by
  unfold tree
  split <;> rfl

/-- The tree of an arena is what stands below its root. -/
theorem tree_eq {kind : Kind} {slots : Slots Kind Token}
    (h : (a.element? (.node a.root)).map Tree.unnumbered = some (.node kind slots)) :
    a.tree = ⟨a.text, kind, slots⟩ := by
  obtain ⟨e, he, hnode⟩ := Option.map_eq_some_iff.mp h
  cases e with
  | token t => cases hnode
  | node label below =>
    obtain ⟨rfl, rfl⟩ := Tree.node.inj hnode
    rw [tree, he]

theorem isSome_position? (h : a.made x) : (a.position? x).isSome := by
  cases x with
  | token n => simpa [position?] using Builder.made_token.mp h
  | node n => simpa [position?] using Builder.made_node.mp h

theorem fullWidth?_eq (h : a.made x) : a.fullWidth? x = some (a.widthOf x) := by
  cases x with
  | token n =>
    have hlt := Builder.made_token.mp h
    simp [fullWidth?, Builder.widthOf, hlt]
  | node n =>
    have hlt := Builder.made_node.mp h
    simp [fullWidth?, Builder.widthOf, hlt]

theorem made_of_slot {n i : Nat} (ha : a.Formed) (h : (a.slotsOf n)[i]? = some (some x)) :
    a.made (.node n) ∧ a.made x := by
  have hn : a.made (.node n) := by
    by_contra hnot
    rw [Builder.slotsOf_eq_nil (by simpa [Builder.made_node] using hnot)] at h
    cases h
  exact ⟨hn, ha.mem_slotsOf hn (List.mem_of_getElem? h)⟩

theorem child?_node (a : Arena) (n i : Nat) :
    a.child? (.node n) i = ((a.slotsOf n)[i]?).join := by
  rw [child?, slot]
  cases (a.slotsOf n)[i]? <;> rfl

theorem at?_concat (a : Arena) (path : List Nat) (i : Nat) :
    a.at? (path ++ [i]) = (a.at? path).bind (a.child? · i) := by
  unfold at?
  rw [List.foldlM_append]
  cases path.foldlM a.child? (.node a.root) with
  | none => rfl
  | some x => simp

theorem place?_eq_some {path : List Nat} {p : Place} :
    a.place? path x = some p ↔ ∃ position e, a.position? x = some position ∧
      a.element? x = some e ∧ p = ⟨path, position, e.unnumbered⟩ := by
  unfold place?
  constructor
  · intro h
    obtain ⟨position, hposition, h⟩ := Option.bind_eq_some_iff.mp h
    obtain ⟨e, he, h⟩ := Option.bind_eq_some_iff.mp h
    cases h
    exact ⟨position, e, hposition, he, rfl⟩
  · rintro ⟨position, e, hposition, he, rfl⟩
    rw [hposition, he]
    rfl

/-- Where positions are those that the slots tell, a slot leads to what is read there. -/
theorem child?_place {path : List Nat} {p : Place} (ha : a.Formed)
    (hposition : ∀ n i x, (a.slotsOf n)[i]? = some (some x) →
      a.position? x = (a.position? (.node n)).map (· + a.widthOfAll ((a.slotsOf n).take i)))
    (hx : a.made x) (hp : a.place? path x = some p) (i : Nat) :
    p.child? i = (a.child? x i).bind (a.place? (path ++ [i])) := by
  obtain ⟨position, e, hstart, he, rfl⟩ := place?_eq_some.mp hp
  cases x with
  | token n =>
    obtain ⟨t, ht⟩ := Builder.exists_token hx
    rw [Builder.element?_token ht] at he
    cases he
    rfl
  | node n =>
    obtain ⟨kind, xs, hn⟩ := Builder.exists_shape hx
    rw [ha.element?_node hn] at he
    cases he
    have hslots := ha.places_ofList (fun x hx => ha.made hn hx) path 0 position i
    have hxs := Builder.slotsOf_of_shape hn
    rw [Place.child?, child?_node, hxs]
    refine (congrArg Option.join hslots).trans ?_
    cases hi : xs[i]? with
    | none => rfl
    | some slot =>
      cases slot with
      | none => rfl
      | some y =>
        have hy := hposition n i y (by rw [hxs, hi])
        rw [hstart, hxs] at hy
        rw [Option.map_some, Option.bind_some, Option.join_some, Option.join_some, Option.bind_some,
          place?, hy, Nat.zero_add]
        cases a.element? y <;> rfl

/-- A path leads to an element that was made. -/
theorem made_of_at? {path : List Nat} (ha : a.Formed) (hroot : a.made (.node a.root))
    (h : a.at? path = some x) : a.made x := by
  induction path using List.reverseRecOn generalizing x with
  | nil =>
    cases h
    exact hroot
  | append_singleton path i ih =>
    rw [at?_concat, Option.bind_eq_some_iff] at h
    obtain ⟨y, hy, h⟩ := h
    cases y with
    | token n => cases h
    | node n =>
      rw [child?_node] at h
      exact (made_of_slot ha (Option.join_eq_some_iff.mp h)).2

/-- A path leads to what is read there, where it is stored to stand. -/
theorem at?_tree (ha : a.Formed) (hroot : a.made (.node a.root))
    (hstart : a.position? (.node a.root) = some 0)
    (hposition : ∀ n i x, (a.slotsOf n)[i]? = some (some x) →
      a.position? x = (a.position? (.node n)).map (· + a.widthOfAll ((a.slotsOf n).take i)))
    (path : List Nat) : a.tree.at? path = (a.at? path).bind (a.place? path) := by
  induction path using List.reverseRecOn with
  | nil =>
    obtain ⟨kind, xs, hn⟩ := Builder.exists_shape hroot
    have htree := ha.element?_node hn
    have hplace : a.place? [] (.node a.root) = some a.tree.root := by
      rw [place?, hstart, htree, SyntaxTree.root, tree, htree]
      rfl
    exact hplace.symm
  | append_singleton path i ih =>
    rw [SyntaxTree.at?_concat, at?_concat, ih]
    cases hx : a.at? path with
    | none => rfl
    | some x =>
      have hmade := made_of_at? ha hroot hx
      obtain ⟨e, he, -⟩ := ha.exists_element hmade
      obtain ⟨position, hp⟩ := Option.isSome_iff_exists.mp (isSome_position? hmade)
      have hplace : a.place? path x = some ⟨path, position, e.unnumbered⟩ :=
        place?_eq_some.mpr ⟨position, e, hp, he, rfl⟩
      rw [Option.bind_some, Option.bind_some, hplace, Option.bind_some]
      exact child?_place ha hposition hmade hplace i

end Arena

/-! ## Finishing -/

namespace Builder

variable {b : Builder} {a : Arena} {made : List Call} {text : Text} {root : Nat}

theorem Sound.unplaced_finish (hb : b.Sound made) (h : b.finish text root = .ok a) :
    a.unplaced = b.unplaced :=
  (hb.placed_of_finish h).2.unplaced

theorem Sound.formed_finish (hb : b.Sound made) (h : b.finish text root = .ok a) : a.Formed := by
  rw [← formed_unplaced, hb.unplaced_finish h, formed_unplaced]
  exact hb.formed

theorem Sound.made_finish (hb : b.Sound made) (h : b.finish text root = .ok a) :
    a.made = b.made :=
  eq_of_unplaced made_unplaced (hb.unplaced_finish h)

theorem Sound.locatedAt_finish (hb : b.Sound made) (h : b.finish text root = .ok a) :
    a.locatedAt = b.locatedAt :=
  eq_of_unplaced locatedAt_unplaced (hb.unplaced_finish h)

theorem Sound.made_root (hb : b.Sound made) (h : b.finish text root = .ok a) :
    a.made (.node root) :=
  hb.made_finish h ▸ made_node.mpr (hb.placed_of_finish h).1.held.made

/-- Every element was placed, where the slots tell that it starts. -/
theorem Sound.position?_finish (hb : b.Sound made) (h : b.finish text root = .ok a) {x : ElementId}
    {position : Nat} (hx : (x, position) ∈ a.locatedAt (.node root, 0)) :
    a.position? x = some position :=
  (hb.placed_of_finish h).2.position x position (hb.locatedAt_finish h ▸ hx)

theorem Sound.position?_root (hb : b.Sound made) (h : b.finish text root = .ok a) :
    a.position? (.node root) = some 0 := by
  obtain ⟨rest, hrest⟩ := (hb.formed_finish h).exists_locatedAt (hb.made_root h) 0
  exact hb.position?_finish h (hrest ▸ List.mem_cons_self)

theorem Sound.position?_slot (hb : b.Sound made) (h : b.finish text root = .ok a) (n i : Nat)
    (x : ElementId) (hx : (a.slotsOf n)[i]? = some (some x)) :
    a.position? x = (a.position? (.node n)).map (· + a.widthOfAll ((a.slotsOf n).take i)) := by
  have hformed := hb.formed_finish h
  obtain ⟨hn, -⟩ := Arena.made_of_slot hformed hx
  obtain ⟨start, hmem⟩ := hb.exists_located (hb.placed_of_finish h).1.held (hb.made_finish h ▸ hn)
  rw [← hb.locatedAt_finish h] at hmem
  rw [hb.position?_finish h hmem, Option.map_some]
  exact hb.position?_finish h (hformed.mem_child (hb.made_root h) hmem (mem_lay hx start))

theorem Sound.tokenList_finish (hb : b.Sound made) (h : b.finish text root = .ok a) :
    a.tokenList = Arena.tokensAmong (a.locatedAt (.node root, 0)) := by
  rw [hb.locatedAt_finish h]
  exact (hb.placed_of_finish h).2.documentOrder

/-- A walk comes to the elements that were placed. -/
theorem Sound.walk_finish (hb : b.Sound made) (h : b.finish text root = .ok a) :
    a.walk = (a.locatedAt (.node root, 0)).map Prod.fst := by
  rw [map_fst_locatedAt, Arena.walk, show a.root = root from (hb.placed_of_finish h).2.root]

theorem Sound.perm_tokenList (hb : b.Sound made) (h : b.finish text root = .ok a) :
    a.tokenList.Perm (List.range a.tokens.size) := by
  have hsize : a.tokens.size = b.tokens.size := by
    rw [← size_madeTokens, eq_of_unplaced madeTokens_unplaced (hb.unplaced_finish h),
      size_madeTokens]
  rw [hb.tokenList_finish h, hb.locatedAt_finish h, hsize]
  exact hb.tokens_located (hb.placed_of_finish h).1.held 0

/-- The stored order of a token is its index among the tokens. -/
theorem Sound.order?_finish (hb : b.Sound made) (h : b.finish text root = .ok a) {n : Nat}
    (hn : a.made (.token n)) (i : Nat) : a.order? n = some i ↔ a.tokenList[i]? = some n := by
  have hindex {i : Nat} (hi : a.tokenList[i]? = some n) : a.order? n = some i := by
    rw [hb.tokenList_finish h, hb.locatedAt_finish h] at hi
    rw [(hb.placed_of_finish h).2.order i n hi]
    exact congrArg some (Nat.zero_add i)
  refine ⟨fun hi => ?_, hindex⟩
  obtain ⟨j, hj⟩ := List.getElem?_of_mem
    ((hb.perm_tokenList h).mem_iff.mpr (List.mem_range.mpr (made_token.mp hn)))
  obtain rfl : j = i := Option.some.inj ((hindex hj).symm.trans hi)
  exact hj

theorem Sound.contiguous_finish (hb : b.Sound made) (h : b.finish text root = .ok a) :
    a.Contiguous 0 (Text.width text) a.tokenList := by
  have hwidth : a.widthOf = b.widthOf := eq_of_unplaced widthOf_unplaced (hb.unplaced_finish h)
  have hgapless := (hb.formed_finish h).gapless (hb.made_root h) 0
  rw [Nat.zero_add, hwidth, (hb.placed_of_finish h).1.width] at hgapless
  rw [hb.tokenList_finish h]
  exact Arena.contiguous_of_gapless (fun _ _ => hb.position?_finish h) hgapless

/-- The tree that `finish` returns stores what the slots tell. -/
theorem Sound.whole (hb : b.Sound made) (h : b.finish text root = .ok a) :
    a.Whole made text root := by
  obtain ⟨hready, hplaced⟩ := hb.placed_of_finish h
  have hsame := hb.unplaced_finish h
  have hformed := hb.formed_finish h
  have hroot := hb.made_root h
  have htop : a.root = root := hplaced.root
  have hmade := hb.made_finish h
  have hparent : a.parent? = b.parent? := eq_of_unplaced parent?_unplaced hsame
  have hslots : a.slotsOf = b.slotsOf := eq_of_unplaced slotsOf_unplaced hsame
  have hids : a.ids = b.ids := eq_of_unplaced ids_unplaced hsame
  have hpreorder : a.tokenList = a.walk.filterMap ElementId.token? := by
    rw [hb.tokenList_finish h, Arena.tokensAmong_eq, hb.walk_finish h]
  refine
    { source := hplaced.text, top := htop, tokens := ?_, nodes := ?_, rooted := hroot,
      leaf := fun _ => below_token, branch := fun _ => hformed.below_node, reached := ?_,
      parent := ?_, root_free := ?_, held := ?_, once := ?_, all := hb.perm_tokenList h,
      preorder := hpreorder, descendants := ?_, order := fun _ => hb.order?_finish h,
      root_position := hb.position?_root h, position := hb.position?_slot h,
      positions := fun _ => Arena.isSome_position?, width := ?_,
      widths := fun _ => Arena.fullWidth?_eq, contiguous := hb.contiguous_finish h, view := ?_ }
  · rw [show a.madeTokens = b.madeTokens from eq_of_unplaced madeTokens_unplaced hsame]
    exact hb.tokens
  · rw [show a.shapes = b.shapes from eq_of_unplaced shapes_unplaced hsame]
    exact hb.nodes
  · rw [hb.walk_finish h, hb.locatedAt_finish h, hids]
    exact hb.ids_located hready.held 0
  · rw [hparent, hslots]
    exact hb.parent
  · rw [hparent]
    exact hready.held.free
  · rw [hmade, hparent]
    exact hready.held.others
  · rw [hslots]
    exact hb.once
  · obtain ⟨e, he, -⟩ := hformed.exists_element hroot
    rw [hpreorder, Arena.walk, htop, below, Arena.descendantTokens, he]
    exact e.filterMap_ids
  · intro n hn
    rw [Arena.fullWidth?_eq hn, hformed.widthOf_node hn]
  · have hstart := hb.position?_root h
    rw [← htop] at hroot hstart
    exact Arena.at?_tree hformed hroot hstart (hb.position?_slot h)

/-- What `finish` returns after calls on a new builder stores what the slots tell. -/
theorem finish_whole (hb : empty.calls made = .ok b) (hf : b.finish text root = .ok a) :
    a.Whole made text root :=
  (sound_empty.calls hb).whole hf

/-- A finished tree is read as wide as its text. -/
theorem Sound.fullWidth_tree (hb : b.Sound made) (h : b.finish text root = .ok a) :
    a.tree.root.fullWidth = Text.width a.tree.text := by
  have hwhole := hb.whole h
  obtain ⟨hready, hplaced⟩ := hb.placed_of_finish h
  have hview : some a.tree.root = a.place? [] (.node a.root) := hwhole.view []
  obtain ⟨position, e, -, he, hroot⟩ := Arena.place?_eq_some.mp hview.symm
  rw [eq_of_unplaced element?_unplaced hplaced.unplaced, hwhole.top] at he
  rw [hroot, a.text_tree, hwhole.source, ← hready.width]
  exact hb.formed.fullWidth_element? he

/-- Calls and a `finish` of which none fails, by running them. -/
theorem exists_finished (made : List Call) (text : Text) (root : Nat)
    (h : ((empty.calls made).bind fun b => b.finish text root).isOk) :
    ∃ b a, empty.calls made = .ok b ∧ b.finish text root = .ok a := by
  cases hb : empty.calls made with
  | error e => rw [hb] at h; cases h
  | ok b =>
    cases hf : b.finish text root with
    | error e =>
      rw [hb, Except.bind, hf] at h
      cases h
    | ok a => exact ⟨b, a, rfl, hf⟩

/-- The calls for a list of two names with a colon between them. -/
def smallCalls : List Call :=
  [.token [] .identifier 1 [⟨.whitespace, 1⟩], .token [] .colon 1 [⟨.whitespace, 1⟩],
    .token [] .identifier 1 [], .token [] .eof 0 [],
    .node .list [some (.token 0), some (.token 1), some (.token 2)],
    .node .document [some (.node 0), some (.token 3)]]

theorem finish_whole_small : ∃ b a, empty.calls smallCalls = .ok b ∧
    b.finish "a : b".toList 1 = .ok a ∧ a.Whole smallCalls "a : b".toList 1 := by
  obtain ⟨b, a, hb, hf⟩ := exists_finished smallCalls "a : b".toList 1
    (by decide +kernel)
  exact ⟨b, a, hb, hf, finish_whole hb hf⟩

end Builder

end Stylesheet
