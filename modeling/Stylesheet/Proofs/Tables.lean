import Mathlib.Data.List.Induction
import Mathlib.Data.List.Nodup
import Mathlib.Data.List.ReduceOption
import Stylesheet.Tree.Arena

/-!
# The tables of a builder

What can be looked up in the tables while a tree is built: who holds an element, how wide it is, and
the tree below it.

**Invariant (`Builder.Formed`).** The slots of a node lie in the table, what stands in them is older
than the node, its width is the sum of theirs, and all numbers and sizes fit. As nodes hold older
elements only, there is an induction over them (`Builder.Formed.induct`).

Results:
* `Builder.getElem?_forestOf`: the tree of a node is made of the trees in its slots.
* `Builder.parent?_take`: who holds an element once some were taken.
* `Builder.addToken_cases`, `Builder.token_cases`: what a call for a token can do.
* `Builder.Formed.withToken`, `Builder.Formed.element?_withToken`: a new token keeps the invariant
  and the trees.
-/
namespace Stylesheet

/-! ## Sizes -/

theorem fitting_eq_ok {n m : Nat} {error : BuildError} :
    fitting n error = .ok m ↔ n < sizeLimit ∧ n = m := by
  unfold fitting
  split
  · next h => simp [h]
  · next h => simp [h]

/-- Two checks of partial sums say what one check of the whole sum says. -/
theorem fitting_bind_checkedAdd (a b : Nat) :
    (fitting a .overflow >>= fun front => checkedAdd front b) = fitting (a + b) .overflow := by
  unfold checkedAdd fitting
  by_cases h : a < sizeLimit
  · rw [if_pos h]
    rfl
  · rw [if_neg h, if_neg (by omega)]
    rfl

theorem TokenData.checkedWidth_eq (data : TokenData) :
    data.checkedWidth = fitting data.token.fullWidth .overflow :=
  fitting_bind_checkedAdd ..

/-- Whether what went wrong is that a size or a number does not fit. -/
def BuildError.isLimit : BuildError → Bool
  | .tooManyTokens | .tooManyNodes | .tooManySlots | .overflow | .textTooLong => true
  | _ => false

namespace Builder

variable {b b' : Builder} {x y : ElementId} {xs : List (Option ElementId)} {kind : Kind}
  {n node : Nat} {t : Token}

@[simp] theorem ok_bind {ε α β : Type} (a : α) (f : α → Except ε β) :
    (Except.ok a >>= f) = f a := rfl

@[simp] theorem error_bind {ε α β : Type} (e : ε) (f : α → Except ε β) :
    (Except.error e >>= f) = .error e := rfl

theorem bind_eq_ok {α β : Type} {m : Except BuildError α} {f : α → Except BuildError β} {r : β} :
    (m >>= f) = .ok r ↔ ∃ a, m = .ok a ∧ f a = .ok r := by
  cases m <;> simp

/-! ## Lookups -/

/-- The bytes of an element, trivia included. -/
def widthOf (b : Builder) : ElementId → Nat
  | .token number => ((b.tokens[number]?).map (·.token.fullWidth)).getD 0
  | .node number => ((b.nodes[number]?).map (·.fullWidth)).getD 0

/-- The bytes of what stands in some slots. -/
def widthOfAll (b : Builder) : List (Option ElementId) → Nat
  | [] => 0
  | none :: xs => b.widthOfAll xs
  | some x :: xs => b.widthOf x + b.widthOfAll xs

theorem made_token : b.made (.token n) ↔ n < b.tokens.size := by simp [made]

theorem made_node : b.made (.node n) ↔ n < b.nodes.size := by simp [made]

theorem parent?_of_not_made (h : ¬b.made x) : b.parent? x = none := by
  cases x <;> simp_all [made, parent?]

@[simp] theorem length_shapes (b : Builder) : b.shapes.length = b.nodes.size := by simp [shapes]

@[simp] theorem size_madeTokens (b : Builder) : b.madeTokens.size = b.tokens.size := by
  simp [madeTokens]

theorem getElem?_shapes (b : Builder) (n : Nat) :
    b.shapes[n]? = (b.nodes[n]?).map fun data => (data.kind, b.slotsIn data) := by
  simp [shapes]

theorem slotsOf_eq (b : Builder) (n : Nat) :
    b.slotsOf n = ((b.shapes[n]?).map Prod.snd).getD [] := by
  rw [getElem?_shapes, slotsOf, Option.map_map]
  rfl

/-! ## Forests -/

section Forests

variable {tokens tokens' : Array Token} {shapes : List (Kind × List (Option ElementId))}

theorem forestOf_concat (tokens : Array Token) (shapes : List (Kind × List (Option ElementId)))
    (kind : Kind) (xs : List (Option ElementId)) :
    forestOf tokens (shapes ++ [(kind, xs)])
      = (forestOf tokens shapes).push (.node ((forestOf tokens shapes).size, kind)
        (Slots.ofList (xs.map (·.bind (treeBelow? tokens (forestOf tokens shapes)))))) := by
  simp [forestOf]

@[simp] theorem size_forestOf (tokens : Array Token)
    (shapes : List (Kind × List (Option ElementId))) :
    (forestOf tokens shapes).size = shapes.length := by
  induction shapes using List.reverseRecOn with
  | nil => rfl
  | append_singleton shapes shape ih =>
    rw [forestOf_concat, Array.size_push, ih, List.length_append, List.length_singleton]

/-- A forest depends on the tokens that its slots hold. -/
theorem forestOf_congr
    (h : ∀ shape ∈ shapes, ∀ n, some (.token n) ∈ shape.2 → tokens[n]? = tokens'[n]?) :
    forestOf tokens shapes = forestOf tokens' shapes := by
  induction shapes using List.reverseRecOn with
  | nil => rfl
  | append_singleton shapes shape ih =>
    obtain ⟨kind, xs⟩ := shape
    have hslots : xs.map (·.bind (treeBelow? tokens (forestOf tokens' shapes)))
        = xs.map (·.bind (treeBelow? tokens' (forestOf tokens' shapes))) := by
      refine List.map_congr_left fun x hx => ?_
      match x with
      | none => rfl
      | some (.node n) => rfl
      | some (.token n) =>
        simp only [Option.bind_some, treeBelow?]
        rw [h (kind, xs) (by simp) n hx]
    rw [forestOf_concat, forestOf_concat, ih fun shape hs => h shape (List.mem_append_left _ hs),
      hslots]

/-- Where nodes hold older nodes only, a tree has the trees below what stands in its slots. -/
theorem getElem?_forestOf {kind : Kind} {xs : List (Option ElementId)} {n : Nat}
    (h : ∀ (n : Nat) (kind : Kind) (xs : List (Option ElementId)), shapes[n]? = some (kind, xs) →
      ∀ m, some (.node m) ∈ xs → m < n)
    (hn : shapes[n]? = some (kind, xs)) : (forestOf tokens shapes)[n]? =
      some (.node (n, kind)
        (Slots.ofList (xs.map (·.bind (treeBelow? tokens (forestOf tokens shapes)))))) := by
  induction shapes using List.reverseRecOn with
  | nil => cases hn
  | append_singleton shapes shape ih =>
    obtain ⟨kind', xs'⟩ := shape
    have hlt : n < (shapes ++ [(kind', xs')]).length := (List.getElem?_eq_some_iff.mp hn).1
    rw [List.length_append, List.length_singleton] at hlt
    have hslots : xs.map (·.bind (treeBelow? tokens (forestOf tokens (shapes ++ [(kind', xs')]))))
        = xs.map (·.bind (treeBelow? tokens (forestOf tokens shapes))) := by
      refine List.map_congr_left fun x hx => ?_
      match x with
      | none => rfl
      | some (.token m) => rfl
      | some (.node m) =>
        have hm := h n kind xs hn m hx
        simp only [Option.bind_some, treeBelow?, forestOf_concat, Array.getElem?_push]
        rw [if_neg (by rw [size_forestOf]; omega)]
    rw [hslots, forestOf_concat, Array.getElem?_push, size_forestOf]
    by_cases hlast : n = shapes.length
    · subst hlast
      simp only [List.getElem?_concat_length, Option.some.injEq, Prod.mk.injEq] at hn
      rw [if_pos rfl, hn.1, hn.2]
    · rw [List.getElem?_append_left (by omega)] at hn
      rw [if_neg hlast]
      refine ih (fun n kind xs hn => h n kind xs ?_) hn
      rw [List.getElem?_append_left (List.getElem?_eq_some_iff.mp hn).1, hn]

end Forests

theorem made_iff_element? : b.made x ↔ (b.element? x).isSome := by
  cases x with
  | token n => simp [made, element?, treeBelow?, madeTokens]
  | node n => simp [made, element?, treeBelow?, forest]

/-! ## Parents -/

section Parents

/-- A change to rows goes unseen where it changes nothing that is looked at. -/
theorem map_getElem?_modify {α β : Type} {f : α → α} {g : α → β} (rows : Array α) (i j : Nat)
    (h : ∀ a, g (f a) = g a) : ((rows.modify i f)[j]?).map g = (rows[j]?).map g := by
  rw [Array.getElem?_modify]
  split
  · rw [Option.map_map]
    exact congrArg (Option.map · _) (funext h)
  · rfl

@[simp] theorem size_tokens_setParent (b : Builder) (x : ElementId) (node : Nat) :
    (b.setParent x node).tokens.size = b.tokens.size := by
  cases x <;> simp [setParent]

@[simp] theorem size_nodes_setParent (b : Builder) (x : ElementId) (node : Nat) :
    (b.setParent x node).nodes.size = b.nodes.size := by
  cases x <;> simp [setParent]

@[simp] theorem slots_setParent (b : Builder) (x : ElementId) (node : Nat) :
    (b.setParent x node).slots = b.slots := by
  cases x <;> rfl

@[simp] theorem madeTokens_setParent (b : Builder) (x : ElementId) (node : Nat) :
    (b.setParent x node).madeTokens = b.madeTokens := by
  cases x with
  | node n => rfl
  | token n =>
    refine Array.ext_getElem? fun m => ?_
    rw [madeTokens, madeTokens, Array.getElem?_map, Array.getElem?_map]
    refine map_getElem?_modify b.tokens n m ?_
    exact fun _ => rfl

@[simp] theorem made_setParent (b : Builder) (x y : ElementId) (node : Nat) :
    (b.setParent x node).made y = b.made y := by
  cases y <;> simp [made]

@[simp] theorem widthOf_setParent (b : Builder) (x y : ElementId) (node : Nat) :
    (b.setParent x node).widthOf y = b.widthOf y := by
  rcases x with n | n <;> rcases y with m | m
  · refine congrArg (Option.getD · 0) (map_getElem?_modify b.tokens n m ?_)
    exact fun _ => rfl
  · rfl
  · rfl
  · refine congrArg (Option.getD · 0) (map_getElem?_modify b.nodes n m ?_)
    exact fun _ => rfl

theorem parent?_setParent (h : b.made x) (y : ElementId) (node : Nat) :
    (b.setParent x node).parent? y = if y = x then some node else b.parent? y := by
  rcases x with n | n <;> rcases y with m | m
  · simp only [setParent, parent?, Array.getElem?_modify]
    by_cases hm : m = n
    · subst hm
      simp [Array.getElem?_eq_getElem (made_token.mp h)]
    · cases b.tokens[m]? <;> simp [hm, Ne.symm hm]
  · simp [setParent, parent?]
  · simp [setParent, parent?]
  · simp only [setParent, parent?, Array.getElem?_modify]
    by_cases hm : m = n
    · subst hm
      simp [Array.getElem?_eq_getElem (made_node.mp h)]
    · cases b.nodes[m]? <;> simp [hm, Ne.symm hm]

/-- A builder some elements of which were taken into a node. -/
def take (b : Builder) (taken : List ElementId) (node : Nat) : Builder :=
  taken.foldl (fun b x => b.setParent x node) b

variable {taken : List ElementId}

@[simp] theorem take_nil (b : Builder) (node : Nat) : b.take [] node = b := rfl

theorem take_cons (b : Builder) (x : ElementId) (taken : List ElementId) (node : Nat) :
    b.take (x :: taken) node = (b.setParent x node).take taken node := rfl

@[simp] theorem size_tokens_take (b : Builder) (taken : List ElementId) (node : Nat) :
    (b.take taken node).tokens.size = b.tokens.size := by
  induction taken generalizing b with
  | nil => rfl
  | cons x taken ih => simp [take_cons, ih]

@[simp] theorem size_nodes_take (b : Builder) (taken : List ElementId) (node : Nat) :
    (b.take taken node).nodes.size = b.nodes.size := by
  induction taken generalizing b with
  | nil => rfl
  | cons x taken ih => simp [take_cons, ih]

@[simp] theorem madeTokens_take (b : Builder) (taken : List ElementId) (node : Nat) :
    (b.take taken node).madeTokens = b.madeTokens := by
  induction taken generalizing b with
  | nil => rfl
  | cons x taken ih => simp [take_cons, ih]

@[simp] theorem widthOf_take (b : Builder) (taken : List ElementId) (node : Nat) :
    (b.take taken node).widthOf y = b.widthOf y := by
  induction taken generalizing b with
  | nil => rfl
  | cons x taken ih => simp [take_cons, ih]

theorem parent?_take (h : ∀ x ∈ taken, b.made x) (y : ElementId) (node : Nat) :
    (b.take taken node).parent? y = if y ∈ taken then some node else b.parent? y := by
  induction taken generalizing b with
  | nil => simp
  | cons x taken ih =>
    have hx : b.made x := h x List.mem_cons_self
    rw [take_cons, ih fun z hz => by simpa using h z (List.mem_cons_of_mem _ hz),
      parent?_setParent hx]
    by_cases hy : y = x <;> simp [hy]

theorem take_withSlots (b : Builder) (slots : Array (Option ElementId)) (taken : List ElementId)
    (node : Nat) :
    { b with slots := slots }.take taken node = { b.take taken node with slots := slots } := by
  induction taken generalizing b with
  | nil => rfl
  | cons x taken ih =>
    rw [take_cons, take_cons, ← ih]
    cases x <;> rfl

end Parents

/-! ## The invariant -/

/-- Whether an element was made before a node. -/
def Older (b : Builder) (x : ElementId) (node : Nat) : Prop :=
  match x with
  | .token n => n < b.tokens.size
  | .node n => n < node

/-- What the tables of a builder are like at any time. -/
structure Formed (b : Builder) : Prop where
  /-- The slots of a node lie in the table. -/
  range : ∀ (n : Nat) (data : NodeData), b.nodes[n]? = some data →
    data.slotsStart + data.slotCount ≤ b.slots.size
  /-- What stands in the slots of a node is older than the node. -/
  older : ∀ n kind xs, b.shapes[n]? = some (kind, xs) → ∀ x, some x ∈ xs → b.Older x n
  /-- A node is as wide as what stands in its slots. -/
  width : ∀ n kind xs, b.shapes[n]? = some (kind, xs) → b.widthOf (.node n) = b.widthOfAll xs
  narrow : ∀ n, b.widthOf (.node n) < sizeLimit
  numbers : b.tokens.size ≤ sizeLimit ∧ b.nodes.size ≤ sizeLimit
  starts : ∀ (n : Nat) (data : NodeData), b.nodes[n]? = some data → data.slotsStart < sizeLimit

theorem formed_empty : empty.Formed := by
  refine ⟨?_, ?_, ?_, fun n => ?_, ?_, ?_⟩ <;> simp [empty, shapes, widthOf, sizeLimit]

theorem Older.made (h : b.Older x node) (hn : node ≤ b.nodes.size) : b.made x := by
  cases x with
  | token n => exact made_token.mpr h
  | node n => exact made_node.mpr (Nat.lt_of_lt_of_le h hn)

theorem Formed.made (hb : b.Formed) (hn : b.shapes[n]? = some (kind, xs)) (hx : some x ∈ xs) :
    b.made x := by
  have hlt : n < b.shapes.length := (List.getElem?_eq_some_iff.mp hn).1
  rw [length_shapes] at hlt
  exact (hb.older n kind xs hn x hx).made (Nat.le_of_lt hlt)

/-- The tree below a node has the trees below what stands in its slots. -/
theorem Formed.element?_node (hb : b.Formed) (hn : b.shapes[n]? = some (kind, xs)) :
    b.element? (.node n)
      = some (.node (n, kind) (Slots.ofList (xs.map (·.bind b.element?)))) :=
  getElem?_forestOf (fun n kind xs hn _ hm => hb.older n kind xs hn _ hm) hn

/-- What holds of tokens, and of a node where it holds of what stands in its slots, holds of
everything that was made. -/
theorem Formed.induct {P : ElementId → Prop} (hb : b.Formed)
    (token : ∀ n, n < b.tokens.size → P (.token n))
    (node : ∀ n kind xs, b.shapes[n]? = some (kind, xs) → (∀ x, some x ∈ xs → P x) → P (.node n))
    (hx : b.made x) : P x := by
  cases x with
  | token n => exact token n (made_token.mp hx)
  | node n =>
    induction n using Nat.strongRecOn with
    | ind n ih =>
      have hlt : n < b.shapes.length := by simpa using made_node.mp hx
      refine node n _ _ (List.getElem?_eq_getElem hlt) fun y hy => ?_
      have hold := hb.older n _ _ (List.getElem?_eq_getElem hlt) y hy
      cases y with
      | token m => exact token m hold
      | node m => exact ih m hold (made_node.mpr (Nat.lt_trans hold (made_node.mp hx)))

/-! ## Adding a token -/

/-- A builder with one more token, that no node holds. -/
def withToken (b : Builder) (t : Token) : Builder :=
  { b with tokens := b.tokens.push ⟨t, none, 0, 0⟩ }

theorem addToken_cases (b : Builder) (ht : t.kind.isToken) :
    (b.tokens.size < sizeLimit ∧ b.addToken t = .ok (.token b.tokens.size, b.withToken t)) ∨
      (sizeLimit ≤ b.tokens.size ∧ b.addToken t = .error .tooManyTokens) := by
  unfold addToken fitting
  by_cases h : b.tokens.size < sizeLimit
  · exact .inl ⟨h, by simp only [ht, h, if_pos]; rfl⟩
  · exact .inr ⟨Nat.le_of_not_lt h, by simp only [ht, h]; rfl⟩

theorem addToken_eq_ok (h : b.addToken t = .ok (x, b')) :
    b.tokens.size < sizeLimit ∧ x = .token b.tokens.size ∧ b' = b.withToken t := by
  by_cases ht : t.kind.isToken
  · rcases b.addToken_cases ht with ⟨hfits, hok⟩ | ⟨-, herror⟩
    · rw [hok] at h
      cases h
      exact ⟨hfits, rfl, rfl⟩
    · rw [herror] at h
      cases h
  · simp only [addToken, ht] at h
    cases h

/-- Making a token is adding it, unless the trivia around it are too wide. -/
theorem token_cases (b : Builder) (leading : List Trivia) (kind : Kind) (width : Nat)
    (trailing : List Trivia) :
    b.token leading kind width trailing = b.addToken (.present kind leading width trailing) ∨
      (sizeLimit ≤ Trivia.totalWidth leading + Trivia.totalWidth trailing ∧
        b.token leading kind width trailing = .error .overflow) := by
  unfold token checkedTotal fitting
  by_cases hleading : Trivia.totalWidth leading < sizeLimit
  · by_cases htrailing : Trivia.totalWidth trailing < sizeLimit
    · exact .inl (by rw [if_pos hleading, if_pos htrailing]; rfl)
    · exact .inr ⟨by omega, by rw [if_pos hleading, if_neg htrailing]; rfl⟩
  · exact .inr ⟨by omega, by rw [if_neg hleading]; rfl⟩

@[simp] theorem size_tokens_withToken (b : Builder) (t : Token) :
    (b.withToken t).tokens.size = b.tokens.size + 1 := by
  simp [withToken]

@[simp] theorem nodes_withToken (b : Builder) (t : Token) : (b.withToken t).nodes = b.nodes := rfl

@[simp] theorem slots_withToken (b : Builder) (t : Token) : (b.withToken t).slots = b.slots := rfl

@[simp] theorem shapes_withToken (b : Builder) (t : Token) :
    (b.withToken t).shapes = b.shapes := rfl

@[simp] theorem madeTokens_withToken (b : Builder) (t : Token) :
    (b.withToken t).madeTokens = b.madeTokens.push t := by
  simp [madeTokens, withToken]

theorem parent?_withToken (b : Builder) (t : Token) (x : ElementId) :
    (b.withToken t).parent? x = b.parent? x := by
  cases x with
  | node n => rfl
  | token n =>
    simp only [withToken, parent?, Array.getElem?_push]
    split
    · next h => simp [h]
    · rfl

theorem widthOf_withToken (hx : b.made x) (t : Token) :
    (b.withToken t).widthOf x = b.widthOf x := by
  cases x with
  | node n => rfl
  | token n =>
    have hne : n ≠ b.tokens.size := Nat.ne_of_lt (made_token.mp hx)
    simp only [withToken, widthOf, Array.getElem?_push, if_neg hne]

theorem Formed.forest_withToken (hb : b.Formed) (t : Token) :
    (b.withToken t).forest = b.forest := by
  rw [forest, forest, shapes_withToken, madeTokens_withToken]
  refine forestOf_congr fun shape hshape n hn => ?_
  obtain ⟨m, hm⟩ := List.getElem?_of_mem hshape
  have hlt : n < b.madeTokens.size := by
    rw [size_madeTokens]
    exact hb.older m shape.1 shape.2 hm _ hn
  rw [Array.getElem?_push, if_neg (Nat.ne_of_lt hlt)]

theorem Formed.element?_withToken (hb : b.Formed) (t : Token) (x : ElementId) :
    (b.withToken t).element? x
      = if x = .token b.tokens.size then some (.token (b.tokens.size, t)) else b.element? x := by
  rw [element?, element?, hb.forest_withToken, madeTokens_withToken]
  cases x with
  | node n => rfl
  | token n =>
    simp only [treeBelow?, Array.getElem?_push, size_madeTokens, ElementId.token.injEq]
    split
    · next h => rw [h]; rfl
    · rfl

theorem widthOfAll_cons (b : Builder) (x : ElementId) (xs : List (Option ElementId)) :
    b.widthOfAll (some x :: xs) = b.widthOf x + b.widthOfAll xs := rfl

theorem widthOfAll_congr (h : ∀ x ∈ xs.reduceOption, b'.widthOf x = b.widthOf x) :
    b'.widthOfAll xs = b.widthOfAll xs := by
  induction xs with
  | nil => rfl
  | cons x xs ih =>
    cases x with
    | none => exact ih h
    | some x =>
      rw [List.reduceOption_cons_of_some] at h
      rw [widthOfAll, widthOfAll, h x List.mem_cons_self,
        ih fun y hy => h y (List.mem_cons_of_mem _ hy)]

theorem Formed.withToken (hb : b.Formed) (hfits : b.tokens.size < sizeLimit) (t : Token) :
    (b.withToken t).Formed where
  range := hb.range
  older n kind xs hn x hx := by
    have hold := hb.older n kind xs hn x hx
    cases x with
    | token m => exact Nat.lt_of_lt_of_le hold (by simp)
    | node m => exact hold
  width n kind xs hn := by
    rw [widthOfAll_congr fun x hx =>
      widthOf_withToken (hb.made hn (List.reduceOption_mem_iff.mp hx)) t]
    exact hb.width n kind xs hn
  narrow := hb.narrow
  numbers := ⟨by rw [size_tokens_withToken]; exact hfits, hb.numbers.2⟩
  starts := hb.starts

end Builder

end Stylesheet
