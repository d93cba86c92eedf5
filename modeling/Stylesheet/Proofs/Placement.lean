import Stylesheet.Proofs.Ownership
import Stylesheet.Proofs.Starts

/-!
# Where elements are placed

The loop that places a tree takes the first element off a stack, notes where it starts, and puts
what it holds there in its stead. So the elements come up in the order of a walk from the root, and
each starts where the walk says: a child behind its siblings in front.

**The loop (`Arena.place_eq`).** By induction on the steps: what the loop still has to place are the
elements below those on the stack, each where it starts (`Builder.locatedAt`), and it places them in
order, one by one.

**What is noted (`Arena.Placed`).** Placing changes positions and indices alone, so that what the
builder knew is still so (`Builder.unplaced`). As no element comes up twice, what is noted for one
stays.

Results:
* `Arena.place_eq`: the loop places what is below the stack, in order.
* `Arena.Placed`: what is stored once some elements are placed.
* `Builder.Sound.finish_eq`: finishing is placing, where the checks in front of it pass.
* `Builder.Sound.placed_of_finish`, `Builder.Sound.exists_finish`: what a finished tree stores, and
  when there is one.
-/
namespace Stylesheet

namespace Builder

variable {b b' : Builder} {x y : ElementId} {xs : List (Option ElementId)} {kind : Kind}
  {n position offset : Nat} {t : Token} {entry : ElementId × Nat}

/-! ## What placing leaves alone -/

/-- A builder that does not know where its elements stand. -/
def unplaced (b : Builder) : Builder :=
  { b with
    tokens := b.tokens.map fun data => { data with position := 0, order := 0 }
    nodes := b.nodes.map fun data => { data with position := 0 } }

section Unplaced

@[simp] theorem madeTokens_unplaced (b : Builder) : b.unplaced.madeTokens = b.madeTokens := by
  simp [madeTokens, unplaced, Function.comp_def]

@[simp] theorem shapes_unplaced (b : Builder) : b.unplaced.shapes = b.shapes := by
  simp [shapes, unplaced, Function.comp_def, slotsIn]

@[simp] theorem made_unplaced (b : Builder) : b.unplaced.made = b.made := by
  funext x
  cases x <;> simp [made, unplaced]

@[simp] theorem parent?_unplaced (b : Builder) : b.unplaced.parent? = b.parent? := by
  funext x
  cases x with
  | token n => simp only [parent?, unplaced, Array.getElem?_map]; cases b.tokens[n]? <;> rfl
  | node n => simp only [parent?, unplaced, Array.getElem?_map]; cases b.nodes[n]? <;> rfl

@[simp] theorem widthOf_unplaced (b : Builder) : b.unplaced.widthOf = b.widthOf := by
  funext x
  cases x <;> simp [widthOf, unplaced, Function.comp_def]

theorem slotsOf_unplaced (b : Builder) : b.unplaced.slotsOf = b.slotsOf := by
  funext n
  rw [slotsOf_eq, slotsOf_eq, shapes_unplaced]

theorem element?_unplaced (b : Builder) : b.unplaced.element? = b.element? := by
  funext x
  rw [element?, element?, forest, forest, madeTokens_unplaced, shapes_unplaced]

theorem ids_unplaced (b : Builder) : b.unplaced.ids = b.ids := by
  simp [ids, unplaced]

theorem locatedAt_unplaced (b : Builder) : b.unplaced.locatedAt = b.locatedAt := by
  funext entry
  rw [locatedAt, locatedAt, element?_unplaced]

/-- What can be told of a builder without knowing where elements stand is the same for builders that
differ in that alone. -/
theorem eq_of_unplaced {β : Type} {f : Builder → β} (hf : ∀ b, f b.unplaced = f b)
    (h : b'.unplaced = b.unplaced) : f b' = f b := by
  rw [← hf, h, hf]

theorem formed_unplaced : b.unplaced.Formed ↔ b.Formed := by
  have hrow {n : Nat} : b.unplaced.nodes[n]?
      = (b.nodes[n]?).map fun data => { data with position := 0 } := by
    simp [unplaced]
  have htokens : b.unplaced.tokens.size = b.tokens.size := by simp [unplaced]
  have hnodes : b.unplaced.nodes.size = b.nodes.size := by simp [unplaced]
  have holder : b.unplaced.Older = b.Older := by
    funext x n
    cases x <;> simp [Older, unplaced]
  have hall : b.unplaced.widthOfAll = b.widthOfAll := by
    funext xs
    exact widthOfAll_congr fun x _ => congrFun (widthOf_unplaced b) x
  constructor
  · intro h
    refine ⟨fun n data hdata => ?_, ?_, ?_, ?_, ?_, fun n data hdata => ?_⟩
    · exact h.range n { data with position := 0 } (by rw [hrow, hdata]; rfl)
    · simpa [holder] using h.older
    · simpa [hall] using h.width
    · simpa using h.narrow
    · rw [← htokens, ← hnodes]
      exact h.numbers
    · exact h.starts n { data with position := 0 } (by rw [hrow, hdata]; rfl)
  · intro h
    refine ⟨fun n data hdata => ?_, ?_, ?_, ?_, ?_, fun n data hdata => ?_⟩
    · rw [hrow] at hdata
      obtain ⟨row, hrow, rfl⟩ := Option.map_eq_some_iff.mp hdata
      exact h.range n row hrow
    · simpa [holder] using h.older
    · simpa [hall] using h.width
    · simpa using h.narrow
    · rw [htokens, hnodes]
      exact h.numbers
    · rw [hrow] at hdata
      obtain ⟨row, hrow, rfl⟩ := Option.map_eq_some_iff.mp hdata
      exact h.starts n row hrow

end Unplaced

end Builder

/-! ## Placing -/

namespace Arena

variable {a a' : Arena} {n position : Nat} {t : Token} {x : ElementId}
  {l stack : List (ElementId × Nat)}

/-- Notes where an element starts. -/
def put (a : Arena) (entry : ElementId × Nat) : Except BuildError Arena :=
  match entry.1 with
  | .token number => a.putToken number entry.2
  | .node number => .ok (a.putNode number entry.2)

/-- The arena once a token is placed. -/
def noted (a : Arena) (n position : Nat) : Arena :=
  { a with
    tokens := a.tokens.modify n fun data =>
      { data with position := position, order := a.documentOrder.size }
    documentOrder := a.documentOrder.push n }

/-- Whether a token's text starts and stops between characters. -/
def Parted (text : Text) (position : Nat) (t : Token) : Prop :=
  text.isBoundary (position + t.leadingWidth) ∧
    text.isBoundary (position + t.leadingWidth + t.width)

theorem exists_row (h : a.madeTokens[n]? = some t) :
    ∃ data, a.tokens[n]? = some data ∧ data.token = t := by
  rw [Builder.madeTokens, Array.getElem?_map] at h
  exact Option.map_eq_some_iff.mp h

theorem putToken_eq_ok (h : a.putToken n position = .ok a') :
    ∃ t, a.madeTokens[n]? = some t ∧ Parted a.text position t ∧ a' = a.noted n position := by
  unfold putToken at h
  cases hdata : a.tokens[n]? with
  | none => simp only [hdata] at h; cases h
  | some data =>
    simp only [hdata] at h
    obtain ⟨order, horder, h⟩ := Builder.bind_eq_ok.mp h
    obtain ⟨start, hstart, h⟩ := Builder.bind_eq_ok.mp h
    obtain ⟨stop, hstop, h⟩ := Builder.bind_eq_ok.mp h
    obtain ⟨-, rfl⟩ := fitting_eq_ok.mp horder
    obtain ⟨-, rfl⟩ := fitting_eq_ok.mp hstart
    obtain ⟨-, rfl⟩ := fitting_eq_ok.mp hstop
    refine ⟨data.token, by simp [Builder.madeTokens, hdata], ?_⟩
    split at h
    · cases h
    · next hparted =>
      cases h
      exact ⟨by simpa [Parted] using hparted, rfl⟩

theorem putToken_ok (h : a.madeTokens[n]? = some t) (hparted : Parted a.text position t)
    (horder : a.documentOrder.size < sizeLimit) (hstop : position + t.fullWidth < sizeLimit) :
    a.putToken n position = .ok (a.noted n position) := by
  obtain ⟨data, hdata, rfl⟩ := exists_row h
  rw [Token.fullWidth] at hstop
  unfold putToken
  simp only [hdata]
  rw [fitting_eq_ok.mpr ⟨horder, rfl⟩, Builder.ok_bind, checkedAdd,
    fitting_eq_ok.mpr ⟨(by omega : position + data.token.leadingWidth < sizeLimit), rfl⟩,
    Builder.ok_bind, checkedAdd, fitting_eq_ok.mpr
      ⟨(by omega : position + data.token.leadingWidth + data.token.width < sizeLimit), rfl⟩,
    Builder.ok_bind, if_neg (by simpa [Parted] using hparted)]
  rfl

/-! ### What is noted -/

@[simp] theorem unplaced_noted (a : Arena) (n position : Nat) :
    (a.noted n position).unplaced = a.unplaced := by
  simp only [Builder.unplaced, noted, Builder.mk.injEq, and_true]
  refine Array.ext_getElem? fun m => ?_
  rw [Array.getElem?_map, Array.getElem?_map]
  exact Builder.map_getElem?_modify a.tokens n m fun _ => rfl

@[simp] theorem unplaced_putNode (a : Arena) (n position : Nat) :
    (a.putNode n position).unplaced = a.unplaced := by
  simp only [Builder.unplaced, putNode, Builder.mk.injEq, and_true, true_and]
  refine Array.ext_getElem? fun m => ?_
  rw [Array.getElem?_map, Array.getElem?_map]
  exact Builder.map_getElem?_modify a.nodes n m fun _ => rfl

theorem position?_noted (h : a.made (.token n)) (position : Nat) (x : ElementId) :
    (a.noted n position).position? x = if x = .token n then some position else a.position? x := by
  cases x with
  | node m => rfl
  | token m =>
    simp only [noted, position?, Array.getElem?_modify, ElementId.token.injEq]
    by_cases hm : m = n
    · subst hm
      simp [Array.getElem?_eq_getElem (Builder.made_token.mp h)]
    · simp [hm, Ne.symm hm]

theorem order?_noted (h : a.made (.token n)) (position m : Nat) :
    (a.noted n position).order? m = if m = n then some a.documentOrder.size else a.order? m := by
  simp only [noted, order?, Array.getElem?_modify]
  by_cases hm : m = n
  · subst hm
    simp [Array.getElem?_eq_getElem (Builder.made_token.mp h)]
  · simp [hm, Ne.symm hm]

theorem position?_putNode (h : a.made (.node n)) (position : Nat) (x : ElementId) :
    (a.putNode n position).position? x = if x = .node n then some position else a.position? x := by
  cases x with
  | token m => rfl
  | node m =>
    simp only [putNode, position?, Array.getElem?_modify, ElementId.node.injEq]
    by_cases hm : m = n
    · subst hm
      simp [Array.getElem?_eq_getElem (Builder.made_node.mp h)]
    · simp [hm, Ne.symm hm]

/-- The tokens among some elements. -/
def tokensAmong : List (ElementId × Nat) → List Nat
  | [] => []
  | (.token n, _) :: rest => n :: tokensAmong rest
  | (.node _, _) :: rest => tokensAmong rest

theorem tokensAmong_eq (l : List (ElementId × Nat)) :
    tokensAmong l = (l.map Prod.fst).filterMap ElementId.token? := by
  induction l with
  | nil => rfl
  | cons entry l ih =>
    obtain ⟨x, position⟩ := entry
    cases x with
    | token n => exact congrArg (n :: ·) ih
    | node n => exact ih

/-- What is stored once some elements are placed. -/
structure Placed (a a' : Arena) (l : List (ElementId × Nat)) : Prop where
  unplaced : a'.unplaced = a.unplaced
  text : a'.text = a.text
  root : a'.root = a.root
  documentOrder : a'.tokenList = a.tokenList ++ tokensAmong l
  position : ∀ x position, (x, position) ∈ l → a'.position? x = some position
  order : ∀ i n, (tokensAmong l)[i]? = some n →
    a'.order? n = some (a.documentOrder.size + i)
  positions : ∀ x, x ∉ l.map Prod.fst → a'.position? x = a.position? x
  orders : ∀ n, .token n ∉ l.map Prod.fst → a'.order? n = a.order? n
  parted : ∀ n position t, (.token n, position) ∈ l → a.madeTokens[n]? = some t →
    Parted a.text position t

theorem placed_nil (a : Arena) : a.Placed a [] where
  unplaced := rfl
  text := rfl
  root := rfl
  documentOrder := by simp [tokensAmong]
  position _ _ h := by cases h
  order _ _ h := by cases h
  positions _ _ := rfl
  orders _ _ := rfl
  parted _ _ _ h := by cases h

/-- What is stored once one element is placed. -/
theorem placed_put (hx : a.made x) (hput : a.put (x, position) = .ok a') :
    a.Placed a' [(x, position)] := by
  cases x with
  | node n =>
    cases hput
    refine ⟨unplaced_putNode .., rfl, rfl, (List.append_nil _).symm, ?_, nofun, ?_, fun _ _ => rfl,
      ?_⟩
    · intro y start hy
      cases List.mem_singleton.mp hy
      rw [position?_putNode hx, if_pos rfl]
    · intro y hy
      rw [position?_putNode hx, if_neg fun h => hy (List.mem_singleton.mpr h)]
    · intro m start t hm
      cases List.mem_singleton.mp hm
  | token n =>
    obtain ⟨t, ht, hparted, rfl⟩ := putToken_eq_ok hput
    refine ⟨unplaced_noted .., rfl, rfl, ?_, ?_, ?_, ?_, ?_, ?_⟩
    · simp [tokenList, noted, tokensAmong]
    · intro y start hy
      cases List.mem_singleton.mp hy
      rw [position?_noted hx, if_pos rfl]
    · intro i m hm
      obtain ⟨rfl, rfl⟩ : i = 0 ∧ n = m := by simpa [tokensAmong, List.getElem?_singleton] using hm
      rw [order?_noted hx, if_pos rfl]
      rfl
    · intro y hy
      rw [position?_noted hx, if_neg fun h => hy (List.mem_singleton.mpr h)]
    · intro m hm
      rw [order?_noted hx, if_neg fun h => hm (List.mem_singleton.mpr (congrArg _ h))]
    · intro m start u hm hu
      cases List.mem_singleton.mp hm
      rw [ht] at hu
      cases hu
      exact hparted

theorem tokensAmong_append (l l' : List (ElementId × Nat)) :
    tokensAmong (l ++ l') = tokensAmong l ++ tokensAmong l' := by
  simp [tokensAmong_eq, List.filterMap_append]

theorem mem_tokensAmong : n ∈ tokensAmong l ↔ .token n ∈ l.map Prod.fst := by
  rw [tokensAmong_eq, List.mem_filterMap]
  constructor
  · rintro ⟨y, hy, hn⟩
    cases y with
    | token m =>
      cases hn
      exact hy
    | node m => cases hn
  · exact fun h => ⟨_, h, rfl⟩

/-- Placing more elements leaves what is stored for those placed before. -/
theorem Placed.append {a'' : Arena} {l' : List (ElementId × Nat)} (h : a.Placed a' l)
    (h' : a'.Placed a'' l') (hnew : ∀ x ∈ l.map Prod.fst, x ∉ l'.map Prod.fst) :
    a.Placed a'' (l ++ l') := by
  refine ⟨h'.unplaced.trans h.unplaced, h'.text.trans h.text, h'.root.trans h.root, ?_, ?_, ?_, ?_,
    ?_, ?_⟩
  · rw [h'.documentOrder, h.documentOrder, tokensAmong_append, List.append_assoc]
  · intro y start hy
    rcases List.mem_append.mp hy with hy | hy
    · rw [h'.positions y (hnew y (List.mem_map_of_mem hy))]
      exact h.position y start hy
    · exact h'.position y start hy
  · intro i m hm
    rw [tokensAmong_append] at hm
    rcases Nat.lt_or_ge i (tokensAmong l).length with hi | hi
    · rw [List.getElem?_append_left hi] at hm
      rw [h'.orders m (hnew _ (mem_tokensAmong.mp (List.mem_of_getElem? hm)))]
      exact h.order i m hm
    · rw [List.getElem?_append_right hi] at hm
      have hlength := congrArg List.length h.documentOrder
      rw [List.length_append, tokenList, tokenList, Array.length_toList, Array.length_toList]
        at hlength
      rw [h'.order _ m hm, hlength, Nat.add_assoc, Nat.add_sub_cancel' hi]
  · intro y hy
    rw [List.map_append, List.mem_append, not_or] at hy
    rw [h'.positions y hy.2, h.positions y hy.1]
  · intro m hm
    rw [List.map_append, List.mem_append, not_or] at hm
    rw [h'.orders m hm.2, h.orders m hm.1]
  · intro m start t hm ht
    rcases List.mem_append.mp hm with hm | hm
    · exact h.parted m start t hm ht
    · rw [← Builder.eq_of_unplaced Builder.madeTokens_unplaced h.unplaced] at ht
      exact h.text ▸ h'.parted m start t hm ht

theorem unplaced_put {entry : ElementId × Nat} (h : a.put entry = .ok a') :
    a'.unplaced = a.unplaced := by
  obtain ⟨x, position⟩ := entry
  cases x with
  | node n =>
    cases h
    exact unplaced_putNode ..
  | token n =>
    obtain ⟨-, -, -, rfl⟩ := putToken_eq_ok h
    exact unplaced_noted ..

theorem placed_of_foldlM (hmade : ∀ entry ∈ l, a.made entry.1)
    (honce : (l.map Prod.fst).Nodup) (h : l.foldlM put a = .ok a') : a.Placed a' l := by
  induction l generalizing a with
  | nil =>
    cases h
    exact placed_nil _
  | cons entry l ih =>
    rw [List.foldlM_cons] at h
    obtain ⟨a₁, hput, h⟩ := Builder.bind_eq_ok.mp h
    rw [List.map_cons, List.nodup_cons] at honce
    have hsame : a₁.made = a.made :=
      Builder.eq_of_unplaced Builder.made_unplaced (unplaced_put hput)
    have hfirst := placed_put (hmade entry List.mem_cons_self) hput
    have hrest := ih (fun e he => hsame ▸ hmade e (List.mem_cons_of_mem _ he)) honce.2 h
    refine hfirst.append hrest fun x hx => ?_
    cases List.mem_singleton.mp hx
    exact honce.1

/-- Elements can be placed where token texts start and stop between characters, and all numbers
fit. -/
theorem exists_foldlM_put (hmade : ∀ entry ∈ l, a.made entry.1)
    (hparted : ∀ n position t, (.token n, position) ∈ l → a.madeTokens[n]? = some t →
      Parted a.text position t)
    (hstop : ∀ entry ∈ l, entry.2 + a.widthOf entry.1 < sizeLimit)
    (horder : a.documentOrder.size + (tokensAmong l).length ≤ sizeLimit) :
    ∃ a', l.foldlM put a = .ok a' := by
  induction l generalizing a with
  | nil => exact ⟨a, rfl⟩
  | cons entry l ih =>
    obtain ⟨x, position⟩ := entry
    have hput : ∃ a₁, a.put (x, position) = .ok a₁ ∧ a₁.text = a.text ∧
        a₁.documentOrder.size + (tokensAmong l).length ≤ sizeLimit := by
      cases x with
      | node n => exact ⟨_, rfl, rfl, horder⟩
      | token n =>
        rw [tokensAmong, List.length_cons] at horder
        obtain ⟨t, ht⟩ := Builder.exists_token (hmade _ List.mem_cons_self)
        have hfits := hstop _ List.mem_cons_self
        rw [Builder.widthOf_token ht] at hfits
        refine ⟨_, putToken_ok ht (hparted n position t List.mem_cons_self ht) (by omega) hfits,
          rfl, ?_⟩
        simp only [noted, Array.size_push]
        omega
    obtain ⟨a₁, hput, htext, hfits⟩ := hput
    have hsame := unplaced_put hput
    rw [List.foldlM_cons, hput, Builder.ok_bind]
    refine ih ?_ ?_ ?_ hfits
    · rw [Builder.eq_of_unplaced Builder.made_unplaced hsame]
      exact fun e he => hmade e (List.mem_cons_of_mem _ he)
    · rw [Builder.eq_of_unplaced Builder.madeTokens_unplaced hsame, htext]
      exact fun n position t ht => hparted n position t (List.mem_cons_of_mem _ ht)
    · rw [Builder.eq_of_unplaced Builder.widthOf_unplaced hsame]
      exact fun e he => hstop e (List.mem_cons_of_mem _ he)

/-! ### The loop -/

theorem laidOut_eq {xs : List (Option ElementId)} {offset : Nat} (ha : a.Formed)
    (hmade : ∀ x, some x ∈ xs → a.made x) (hfits : offset + a.widthOfAll xs < sizeLimit) :
    a.laidOut offset xs = .ok (a.lay offset xs) := by
  induction xs generalizing offset with
  | nil => rfl
  | cons x xs ih =>
    have hrest {offset : Nat} := @ih offset fun y hy => hmade y (List.mem_cons_of_mem _ hy)
    cases x with
    | none => exact hrest hfits
    | some x =>
      rw [Builder.widthOfAll_cons, ← Nat.add_assoc] at hfits
      rw [laidOut, Builder.checkedWidth_eq (hmade x List.mem_cons_self) ha.narrow,
        fitting_eq_ok.mpr ⟨(by omega : a.widthOf x < sizeLimit), rfl⟩, Builder.ok_bind, checkedAdd,
        fitting_eq_ok.mpr ⟨(by omega : offset + a.widthOf x < sizeLimit), rfl⟩, Builder.ok_bind,
        hrest hfits]
      rfl

/-- What the loop can work off: elements that were made, where they fit, and no more of them than
there are steps. -/
structure Waiting (a : Arena) (steps : Nat) (stack : List (ElementId × Nat)) : Prop where
  formed : a.Formed
  entries : ∀ entry ∈ stack, a.made entry.1 ∧ entry.2 + a.widthOf entry.1 < sizeLimit
  steps : (stack.flatMap a.locatedAt).length ≤ steps

namespace Waiting

variable {steps : Nat}

theorem of_unplaced (hsame : a'.unplaced = a.unplaced) (h : a.Waiting steps stack) :
    a'.Waiting steps stack where
  formed := by
    rw [← Builder.formed_unplaced, hsame, Builder.formed_unplaced]
    exact h.formed
  entries := by
    rw [Builder.eq_of_unplaced Builder.made_unplaced hsame,
      Builder.eq_of_unplaced Builder.widthOf_unplaced hsame]
    exact h.entries
  steps := by
    rw [Builder.eq_of_unplaced Builder.locatedAt_unplaced hsame]
    exact h.steps

/-- Behind a token the others are left. -/
theorem token (h : a.Waiting (steps + 1) ((.token n, position) :: stack)) :
    a.Waiting steps stack where
  formed := h.formed
  entries entry hentry := h.entries entry (List.mem_cons_of_mem _ hentry)
  steps := by
    have hsteps := h.steps
    rw [List.flatMap_cons, Builder.locatedAt_token (h.entries _ List.mem_cons_self).1,
      List.length_append, List.length_singleton] at hsteps
    omega

section Node

variable (h : a.Waiting (steps + 1) ((.node n, position) :: stack))
include h

theorem made_slot (hx : some x ∈ a.slotsOf n) : a.made x :=
  h.formed.mem_slotsOf (h.entries _ List.mem_cons_self).1 hx

theorem slots_fit : position + a.widthOfAll (a.slotsOf n) < sizeLimit := by
  obtain ⟨hn, hfits⟩ := h.entries _ List.mem_cons_self
  rwa [h.formed.widthOf_node hn] at hfits

/-- Behind a node what it holds is left too. -/
theorem node : a.Waiting steps (a.lay position (a.slotsOf n) ++ stack) where
  formed := h.formed
  entries entry hentry := by
    rcases List.mem_append.mp hentry with hentry | hentry
    · have hend := Builder.add_widthOf_le hentry
      have hfits := h.slots_fit
      exact ⟨h.made_slot (Builder.mem_of_mem_lay hentry), by omega⟩
    · exact h.entries entry (List.mem_cons_of_mem _ hentry)
  steps := by
    have hsteps := h.steps
    rw [List.flatMap_cons, h.formed.locatedAt_node (h.entries _ List.mem_cons_self).1,
      List.length_append, List.length_cons] at hsteps
    rw [List.flatMap_append, List.length_append]
    omega

end Node

end Waiting

/-- The loop places the elements below those on the stack, in order. -/
theorem place_eq {steps : Nat} (h : a.Waiting steps stack) :
    a.place steps stack = (stack.flatMap a.locatedAt).foldlM put a := by
  induction steps generalizing a stack with
  | zero =>
    cases stack with
    | nil => rfl
    | cons entry stack =>
      obtain ⟨rest, hrest⟩ :=
        h.formed.exists_locatedAt (h.entries entry List.mem_cons_self).1 entry.2
      have hsteps := h.steps
      rw [List.flatMap_cons, hrest] at hsteps
      cases hsteps
  | succ steps ih =>
    cases stack with
    | nil => rfl
    | cons entry stack =>
      obtain ⟨x, position⟩ := entry
      have hx := (h.entries _ List.mem_cons_self).1
      rw [List.flatMap_cons]
      cases x with
      | token n =>
        have hput : a.put (.token n, position) = a.putToken n position := rfl
        rw [Builder.locatedAt_token hx, List.singleton_append, List.foldlM_cons, place, hput]
        cases hok : a.putToken n position with
        | error e => rfl
        | ok a₁ =>
          have hsame : a₁.unplaced = a.unplaced := @unplaced_put _ _ (.token n, position) hok
          rw [Builder.ok_bind, Builder.ok_bind, ih (h.token.of_unplaced hsame),
            Builder.eq_of_unplaced Builder.locatedAt_unplaced hsame]
      | node n =>
        have hsame := unplaced_putNode a n position
        rw [h.formed.locatedAt_node hx, List.cons_append, List.foldlM_cons, put, Builder.ok_bind,
          ← List.flatMap_append, place,
          laidOut_eq h.formed (fun _ => h.made_slot) h.slots_fit, Builder.ok_bind]
        simp only [hx, Bool.not_true, Bool.false_eq_true, if_false]
        rw [ih (h.node.of_unplaced hsame),
          Builder.eq_of_unplaced Builder.locatedAt_unplaced hsame]

end Arena

/-! ## Finishing -/

namespace Builder

variable {b : Builder} {a : Arena} {made : List Call} {text : Text} {root : Nat}

theorem detachedToken?_eq_none :
    b.detachedToken? = none ↔ ∀ n, b.made (.token n) → (b.parent? (.token n)).isSome := by
  rw [detachedToken?, List.findIdx?_eq_none_iff]
  constructor
  · intro h n hn
    have hlt := made_token.mp hn
    have hrow := h b.tokens[n] (Array.getElem_mem_toList hlt)
    simpa [parent?, hlt, Option.isSome_iff_ne_none] using hrow
  · intro h data hdata
    obtain ⟨n, hlt, rfl⟩ := List.mem_iff_getElem.mp hdata
    rw [Array.length_toList] at hlt
    have hrow := h n (made_token.mpr hlt)
    simpa [parent?, hlt, Option.isSome_iff_ne_none] using hrow

theorem detachedNode?_eq_none :
    b.detachedNode? root = none ↔
      ∀ n, b.made (.node n) → n ≠ root → (b.parent? (.node n)).isSome := by
  rw [detachedNode?, List.find?_eq_none]
  simp [made_node, Option.isSome_iff_ne_none]

/-- The arena in which a tree is placed, before the first step. -/
def laid (b : Builder) (text : Text) (root : Nat) : Arena :=
  { b with text := text, documentOrder := #[], root := root }

/-- What `finish` looks at before it places the tree. -/
structure Ready (b : Builder) (text : Text) (root : Nat) : Prop where
  held : b.Held root
  width : b.widthOf (.node root) = Text.width text
  fits : Text.width text < sizeLimit

theorem ready_of_finish (h : b.finish text root = .ok a) : b.Ready text root := by
  unfold finish at h
  cases hdata : b.nodes[root]? with
  | none => simp only [hdata] at h; cases h
  | some data =>
    simp only [hdata] at h
    have hmade : root < b.nodes.size := (Array.getElem?_eq_some_iff.mp hdata).1
    split at h
    · cases h
    next hparent =>
    cases htokens : b.detachedToken? with
    | some n => simp only [htokens] at h; cases h
    | none =>
      cases hnodes : b.detachedNode? root with
      | some n => simp only [htokens, hnodes] at h; cases h
      | none =>
        simp only [htokens, hnodes] at h
        obtain ⟨length, hlength, h⟩ := bind_eq_ok.mp h
        obtain ⟨hfits, rfl⟩ := fitting_eq_ok.mp hlength
        refine ⟨⟨hmade, ?_, fun x hx hne => ?_⟩, ?_, hfits⟩
        · rw [parent?, hdata]
          simpa using hparent
        · cases x with
          | token n => exact detachedToken?_eq_none.mp htokens n hx
          | node n => exact detachedNode?_eq_none.mp hnodes n hx fun h => hne (congrArg _ h)
        · split at h
          · cases h
          · next hspan =>
            rw [widthOf, hdata]
            simpa using hspan

/-- Where a tree is ready, finishing it is placing it. -/
theorem Ready.finish_eq (h : b.Ready text root) :
    b.finish text root
      = (b.laid text root).place (b.tokens.size + b.nodes.size) [(.node root, 0)] := by
  obtain ⟨data, hdata⟩ : ∃ data, b.nodes[root]? = some data :=
    ⟨_, Array.getElem?_eq_getElem h.held.made⟩
  have hparent : data.parent = none := by
    have hfree := h.held.free
    rwa [parent?, hdata] at hfree
  have hspan : data.fullWidth = Text.width text := by
    have hwidth := h.width
    rwa [widthOf, hdata] at hwidth
  have htokens : b.detachedToken? = none :=
    detachedToken?_eq_none.mpr fun n hn => h.held.others _ hn ElementId.noConfusion
  have hnodes : b.detachedNode? root = none :=
    detachedNode?_eq_none.mpr fun n hn hne =>
      h.held.others _ hn fun heq => hne (ElementId.node.inj heq)
  rw [finish]
  simp only [hdata, hparent, htokens, hnodes, fitting_eq_ok.mpr ⟨h.fits, rfl⟩, hspan,
    Option.isSome_none, Bool.false_eq_true, if_false, ok_bind, ne_eq, not_true]
  rfl

theorem Sound.ids_located (hb : b.Sound made) (h : b.Held root) (position : Nat) :
    ((b.locatedAt (.node root, position)).map Prod.fst).Perm b.ids := by
  obtain ⟨whole, hwhole, hperm⟩ := hb.walk h
  rw [map_fst_locatedAt, below, hwhole]
  exact hperm

/-- There are as many steps as elements come up. -/
theorem Sound.waiting (hb : b.Sound made) (h : b.Held root) (text : Text) :
    (b.laid text root).Waiting (b.tokens.size + b.nodes.size) [(.node root, 0)] where
  formed := hb.formed
  entries entry hentry := by
    cases List.mem_singleton.mp hentry
    refine ⟨made_node.mpr h.made, ?_⟩
    rw [Nat.zero_add]
    exact hb.formed.narrow root
  steps := by
    have hlength := (hb.ids_located h 0).length_eq
    rw [List.length_map] at hlength
    rw [List.flatMap_singleton]
    refine Nat.le_of_eq (hlength.trans ?_)
    simp [ids]

/-- A tree that is ready is placed from the root on. -/
theorem Sound.finish_eq (hb : b.Sound made) (h : b.Ready text root) :
    b.finish text root
      = (b.locatedAt (.node root, 0)).foldlM Arena.put (b.laid text root) := by
  rw [h.finish_eq, Arena.place_eq (hb.waiting h.held text), List.flatMap_singleton]
  rfl

/-- Every element comes up. -/
theorem Sound.exists_located (hb : b.Sound made) (h : b.Held root) {x : ElementId}
    (hx : b.made x) : ∃ start, (x, start) ∈ b.locatedAt (.node root, 0) := by
  have hwalked := (hb.ids_located h 0).mem_iff.mpr (mem_ids.mpr hx)
  obtain ⟨⟨_, start⟩, hmem, rfl⟩ := List.mem_map.mp hwalked
  exact ⟨start, hmem⟩

/-- The tokens come up once each. -/
theorem Sound.tokens_located (hb : b.Sound made) (h : b.Held root) (position : Nat) :
    (Arena.tokensAmong (b.locatedAt (.node root, position))).Perm (List.range b.tokens.size) := by
  have hids : b.ids.filterMap ElementId.token? = List.range b.tokens.size := by
    simp [ids, List.filterMap_append, List.filterMap_map, Function.comp_def, ElementId.token?]
  rw [Arena.tokensAmong_eq, ← hids]
  exact (hb.ids_located h position).filterMap _

/-- What is stored in a finished tree. -/
theorem Sound.placed_of_finish (hb : b.Sound made) (h : b.finish text root = .ok a) :
    b.Ready text root ∧ (b.laid text root).Placed a (b.locatedAt (.node root, 0)) := by
  have hready := ready_of_finish h
  rw [hb.finish_eq hready] at h
  have hroot : b.made (.node root) := made_node.mpr hready.held.made
  refine ⟨hready, Arena.placed_of_foldlM ?_ ?_ h⟩
  · exact fun entry hentry => (hb.formed.within_of_mem hroot hentry).1
  · exact (hb.ids_located hready.held 0).nodup_iff.mpr b.nodup_ids

/-- A tree that is ready is finished if its token texts start and stop between characters. -/
theorem Sound.exists_finish (hb : b.Sound made) (h : b.Ready text root)
    (hparted : ∀ n position t, (.token n, position) ∈ b.locatedAt (.node root, 0) →
      b.madeTokens[n]? = some t → Arena.Parted text position t) :
    ∃ a, b.finish text root = .ok a := by
  have hroot : b.made (.node root) := made_node.mpr h.held.made
  rw [hb.finish_eq h]
  refine Arena.exists_foldlM_put ?_ hparted ?_ ?_
  · exact fun entry hentry => (hb.formed.within_of_mem hroot hentry).1
  · intro entry hentry
    have hend := (hb.formed.within_of_mem hroot hentry).2
    have hfits := hb.formed.narrow root
    exact Nat.lt_of_le_of_lt (by rwa [Nat.zero_add] at hend) hfits
  · rw [(hb.tokens_located h.held 0).length_eq, List.length_range]
    exact Nat.le_trans (Nat.le_of_eq (Nat.zero_add _)) hb.formed.numbers.1

end Builder

end Stylesheet
