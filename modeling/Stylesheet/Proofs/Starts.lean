import Stylesheet.Proofs.Placing
import Stylesheet.Proofs.Tables

/-!
# Where elements start

Nothing in a builder tells where an element starts, but the slots do: an element starts where its
node does, behind what stands in the slots before its own.

Results:
* `Builder.locatedAt`: the elements below one, each with its start.
* `Builder.Formed.locatedAt_node`: those below a node are those below what it holds, side by side.
* `Builder.Formed.locatedAt_induct`: an induction from an element downwards, with starts.
* `Builder.Formed.gapless`: the tokens below an element follow one another without a gap.
* `Builder.Formed.located_tokens`: a token starts where the tokens before it end.
-/
namespace Stylesheet

/-! ## Starts in a tree -/

mutual

/-- An element and those below it, each with its start and in front of what it holds. -/
def Tree.located (position : Nat) : Numbered → List (ElementId × Nat)
  | .token (number, _) => [(.token number, position)]
  | .node (number, _) slots => (.node number, position) :: slots.located position

def Slots.located (position : Nat) : NumberedSlots → List (ElementId × Nat)
  | .nil => []
  | .empty rest => rest.located position
  | .filled e rest => e.located position ++ rest.located (position + e.unnumbered.fullWidth)

end

mutual

theorem Tree.map_fst_located (position : Nat) (e : Numbered) :
    (e.located position).map Prod.fst = e.ids := by
  match e with
  | .token (number, t) => rfl
  | .node (number, kind) slots =>
    exact congrArg (_ :: ·) (Slots.map_fst_located position slots)

theorem Slots.map_fst_located (position : Nat) (s : NumberedSlots) :
    (s.located position).map Prod.fst = s.allIds := by
  match s with
  | .nil => rfl
  | .empty rest => exact Slots.map_fst_located position rest
  | .filled e rest =>
    rw [Slots.located, List.map_append, Tree.map_fst_located position e,
      Slots.map_fst_located _ rest, Slots.allIds]

end

/-- The number of an element, if it is a token. -/
def ElementId.token? : ElementId → Option Nat
  | .token n => some n
  | .node _ => none

namespace Builder

variable {b b' : Builder} {x y : ElementId} {xs : List (Option ElementId)} {kind : Kind}
  {n position offset : Nat} {t : Token} {entry : ElementId × Nat}

/-! ## Widths -/

theorem element?_token (h : b.madeTokens[n]? = some t) :
    b.element? (.token n) = some (.token (n, t)) := by
  rw [element?, treeBelow?, h, Option.map_some]

theorem exists_token (h : b.made (.token n)) : ∃ t, b.madeTokens[n]? = some t :=
  ⟨_, Array.getElem?_eq_getElem (by simpa using made_token.mp h)⟩

theorem widthOf_token (h : b.madeTokens[n]? = some t) : b.widthOf (.token n) = t.fullWidth := by
  rw [madeTokens, Array.getElem?_map] at h
  obtain ⟨data, hdata, rfl⟩ := Option.map_eq_some_iff.mp h
  rw [widthOf, hdata]
  rfl

theorem exists_shape (h : b.made (.node n)) : ∃ kind xs, b.shapes[n]? = some (kind, xs) :=
  ⟨_, _, List.getElem?_eq_getElem (by simpa using made_node.mp h)⟩

theorem slotsOf_of_shape (h : b.shapes[n]? = some (kind, xs)) : b.slotsOf n = xs := by
  rw [slotsOf_eq, h]
  rfl

theorem made_of_shape (h : b.shapes[n]? = some (kind, xs)) : b.made (.node n) := by
  have hlt := (List.getElem?_eq_some_iff.mp h).1
  exact made_node.mpr (by simpa using hlt)

/-- Trees below what stands in some slots are as wide as the builder says. -/
theorem fullWidth_ofList
    (h : ∀ x, some x ∈ xs → ∃ e, b.element? x = some e ∧ e.unnumbered.fullWidth = b.widthOf x) :
    ((Slots.ofList (xs.map (·.bind b.element?))).map Prod.snd Prod.snd).fullWidth
      = b.widthOfAll xs := by
  induction xs with
  | nil => rfl
  | cons x xs ih =>
    have hrest := ih fun y hy => h y (List.mem_cons_of_mem _ hy)
    cases x with
    | none => exact hrest
    | some x =>
      obtain ⟨e, he, hwidth⟩ := h x List.mem_cons_self
      rw [List.map_cons, Option.bind_some, he, Slots.ofList, Slots.map, Slots.fullWidth, hrest,
        widthOfAll_cons, ← hwidth]
      rfl

/-- The tree below an element is as wide as the builder says. -/
theorem Formed.exists_element (hb : b.Formed) (hx : b.made x) :
    ∃ e, b.element? x = some e ∧ e.unnumbered.fullWidth = b.widthOf x := by
  refine hb.induct (P := fun x => ∃ e, b.element? x = some e ∧
    e.unnumbered.fullWidth = b.widthOf x) ?_ ?_ hx
  · intro n hn
    obtain ⟨t, ht⟩ := exists_token (made_token.mpr hn)
    exact ⟨_, element?_token ht, (widthOf_token ht).symm⟩
  · intro n kind xs hn ih
    exact ⟨_, hb.element?_node hn, (fullWidth_ofList ih).trans (hb.width n kind xs hn).symm⟩

theorem Formed.fullWidth_element? {e : Numbered} (hb : b.Formed) (h : b.element? x = some e) :
    e.unnumbered.fullWidth = b.widthOf x := by
  obtain ⟨e', he', hwidth⟩ := hb.exists_element (made_iff_element?.mpr (by rw [h]; rfl))
  rw [h] at he'
  cases he'
  exact hwidth

/-! ## Starts in a builder -/

/-- What stands in some slots, each element where the one before it ends. -/
def lay (b : Builder) (offset : Nat) : List (Option ElementId) → List (ElementId × Nat)
  | [] => []
  | none :: rest => b.lay offset rest
  | some x :: rest => (x, offset) :: b.lay (offset + b.widthOf x) rest

/-- An element that starts at an offset and those below it, each with its start. -/
def locatedAt (b : Builder) (entry : ElementId × Nat) : List (ElementId × Nat) :=
  ((b.element? entry.1).map (Tree.located entry.2)).getD []

theorem map_fst_locatedAt (b : Builder) (entry : ElementId × Nat) :
    (b.locatedAt entry).map Prod.fst = b.below entry.1 := by
  unfold locatedAt below
  cases b.element? entry.1 with
  | none => rfl
  | some e => exact e.map_fst_located entry.2

theorem locatedAt_token (h : b.made (.token n)) (position : Nat) :
    b.locatedAt (.token n, position) = [(.token n, position)] := by
  obtain ⟨t, ht⟩ := exists_token h
  rw [locatedAt, element?_token ht]
  rfl

theorem Formed.located_ofList (hb : b.Formed) (h : ∀ x, some x ∈ xs → b.made x) (offset : Nat) :
    (Slots.ofList (xs.map (·.bind b.element?))).located offset
      = (b.lay offset xs).flatMap b.locatedAt := by
  induction xs generalizing offset with
  | nil => rfl
  | cons x xs ih =>
    have hrest := ih fun y hy => h y (List.mem_cons_of_mem _ hy)
    cases x with
    | none => exact hrest offset
    | some x =>
      obtain ⟨e, he, hwidth⟩ := hb.exists_element (h x List.mem_cons_self)
      have hfirst : b.locatedAt (x, offset) = e.located offset := by
        rw [locatedAt, he]
        rfl
      rw [List.map_cons, Option.bind_some, he, Slots.ofList, Slots.located, hwidth, hrest, lay,
        List.flatMap_cons, hfirst]

/-- A node comes first, then what is below its slots. -/
theorem Formed.locatedAt_node (hb : b.Formed) (h : b.made (.node n)) (position : Nat) :
    b.locatedAt (.node n, position)
      = (.node n, position) :: (b.lay position (b.slotsOf n)).flatMap b.locatedAt := by
  obtain ⟨kind, xs, hn⟩ := exists_shape h
  rw [slotsOf_of_shape hn, ← hb.located_ofList fun x hx => hb.made hn hx]
  rw [locatedAt, hb.element?_node hn]
  rfl

theorem Formed.exists_locatedAt (hb : b.Formed) (h : b.made x) (position : Nat) :
    ∃ rest, b.locatedAt (x, position) = (x, position) :: rest := by
  cases x with
  | token n => exact ⟨[], locatedAt_token h position⟩
  | node n => exact ⟨_, hb.locatedAt_node h position⟩

theorem mem_of_mem_lay (h : entry ∈ b.lay offset xs) : some entry.1 ∈ xs := by
  induction xs generalizing offset with
  | nil => cases h
  | cons x xs ih =>
    cases x with
    | none => exact List.mem_cons_of_mem _ (ih h)
    | some x =>
      rcases List.mem_cons.mp h with rfl | h
      · exact List.mem_cons_self
      · exact List.mem_cons_of_mem _ (ih h)

/-- What stands in slot `i` starts behind what stands in the slots before it. -/
theorem mem_lay {i : Nat} (h : xs[i]? = some (some x)) (offset : Nat) :
    (x, offset + b.widthOfAll (xs.take i)) ∈ b.lay offset xs := by
  induction xs generalizing i offset with
  | nil => cases h
  | cons y xs ih =>
    cases i with
    | zero =>
      cases Option.some.inj h
      exact List.mem_cons_self
    | succ i =>
      rw [List.getElem?_cons_succ] at h
      cases y with
      | none => exact ih h offset
      | some y =>
        rw [List.take_succ_cons, widthOfAll_cons, ← Nat.add_assoc]
        exact List.mem_cons_of_mem _ (ih h _)

/-- What is laid out ends with the slots. -/
theorem add_widthOf_le (h : entry ∈ b.lay offset xs) :
    entry.2 + b.widthOf entry.1 ≤ offset + b.widthOfAll xs := by
  induction xs generalizing offset with
  | nil => cases h
  | cons x xs ih =>
    cases x with
    | none => exact ih h
    | some x =>
      rw [widthOfAll_cons]
      rcases List.mem_cons.mp h with rfl | h
      · exact Nat.add_le_add_left (Nat.le_add_right _ _) _
      · rw [← Nat.add_assoc]
        exact ih h

theorem Formed.mem_slotsOf (hb : b.Formed) (h : b.made (.node n)) (hx : some x ∈ b.slotsOf n) :
    b.made x := by
  obtain ⟨kind, xs, hn⟩ := exists_shape h
  rw [slotsOf_of_shape hn] at hx
  exact hb.made hn hx

theorem Formed.widthOf_node (hb : b.Formed) (h : b.made (.node n)) :
    b.widthOf (.node n) = b.widthOfAll (b.slotsOf n) := by
  obtain ⟨kind, xs, hn⟩ := exists_shape h
  rw [slotsOf_of_shape hn, hb.width n kind xs hn]

/-- What holds of an element where it starts, and of what is laid out in a node where it holds of
the node, holds of all that is below an element. -/
theorem Formed.locatedAt_induct {P : ElementId × Nat → Prop} (hb : b.Formed) (hx : b.made x)
    (child : ∀ n position, b.made (.node n) → P (.node n, position) →
      ∀ entry ∈ b.lay position (b.slotsOf n), P entry)
    (position : Nat) (hP : P (x, position)) : ∀ entry ∈ b.locatedAt (x, position), P entry := by
  refine hb.induct (P := fun x => ∀ position, P (x, position) →
    ∀ entry ∈ b.locatedAt (x, position), P entry) ?_ ?_ hx position hP
  · intro n hn position hP entry hentry
    rw [locatedAt_token (made_token.mpr hn)] at hentry
    exact List.mem_singleton.mp hentry ▸ hP
  · intro n kind xs hn ih position hP entry hentry
    have hmade := made_of_shape hn
    rw [hb.locatedAt_node hmade, List.mem_cons, List.mem_flatMap] at hentry
    rcases hentry with rfl | ⟨entry', hlaid, hbelow⟩
    · exact hP
    · have hslot := mem_of_mem_lay hlaid
      rw [slotsOf_of_shape hn] at hslot
      exact ih entry'.1 hslot entry'.2 (child n position hmade hP entry' hlaid) entry hbelow

/-- What is below an element was made, and ends with the element. -/
theorem Formed.within_of_mem (hb : b.Formed) (hx : b.made x)
    (h : entry ∈ b.locatedAt (x, position)) :
    b.made entry.1 ∧ entry.2 + b.widthOf entry.1 ≤ position + b.widthOf x := by
  refine hb.locatedAt_induct (P := fun entry => b.made entry.1 ∧
    entry.2 + b.widthOf entry.1 ≤ position + b.widthOf x) hx ?_ position ⟨hx, Nat.le_refl _⟩ entry h
  rintro n start hn ⟨-, hle⟩ entry hentry
  refine ⟨hb.mem_slotsOf hn (mem_of_mem_lay hentry), ?_⟩
  have hend := add_widthOf_le hentry
  rw [← hb.widthOf_node hn] at hend
  exact Nat.le_trans hend hle

/-- What a node holds is below what the node is below. -/
theorem Formed.mem_child (hb : b.Formed) (hx : b.made x) {start : Nat}
    (h : (.node n, start) ∈ b.locatedAt (x, position)) (hy : entry ∈ b.lay start (b.slotsOf n)) :
    entry ∈ b.locatedAt (x, position) := by
  refine hb.induct (P := fun x => ∀ position, (.node n, start) ∈ b.locatedAt (x, position) →
    entry ∈ b.locatedAt (x, position)) ?_ ?_ hx position h
  · intro m hm position h
    rw [locatedAt_token (made_token.mpr hm)] at h
    cases List.mem_singleton.mp h
  · intro m kind xs hm ih position h
    have hmade := made_of_shape hm
    rw [hb.locatedAt_node hmade, List.mem_cons, List.mem_flatMap] at h ⊢
    right
    rcases h with h | ⟨entry', hlaid, hbelow⟩
    · cases h
      have hown := hb.mem_slotsOf hmade (mem_of_mem_lay hy)
      obtain ⟨rest, hrest⟩ := hb.exists_locatedAt hown entry.2
      exact ⟨entry, hy, hrest ▸ List.mem_cons_self⟩
    · have hslot := mem_of_mem_lay hlaid
      rw [slotsOf_of_shape hm] at hslot
      exact ⟨entry', hlaid, ih entry'.1 hslot entry'.2 hbelow⟩

/-! ## Tokens end to end -/

/-- Whether the tokens among some elements follow one another without a gap. -/
def Gapless (b : Builder) (start stop : Nat) : List (ElementId × Nat) → Prop
  | [] => start = stop
  | (.token n, position) :: rest =>
    position = start ∧ b.Gapless (start + b.widthOf (.token n)) stop rest
  | (.node _, _) :: rest => b.Gapless start stop rest

theorem Gapless.append {start middle stop : Nat} {l l' : List (ElementId × Nat)}
    (h : b.Gapless start middle l) (h' : b.Gapless middle stop l') :
    b.Gapless start stop (l ++ l') := by
  induction l generalizing start with
  | nil =>
    cases h
    exact h'
  | cons entry l ih =>
    obtain ⟨x, position⟩ := entry
    cases x with
    | token n => exact ⟨h.1, ih h.2⟩
    | node n => exact ih h

theorem Formed.gapless (hb : b.Formed) (hx : b.made x) (position : Nat) :
    b.Gapless position (position + b.widthOf x) (b.locatedAt (x, position)) := by
  refine hb.induct (P := fun x => ∀ position, b.Gapless position (position + b.widthOf x)
    (b.locatedAt (x, position))) ?_ ?_ hx position
  · intro n hn position
    rw [locatedAt_token (made_token.mpr hn)]
    exact ⟨rfl, rfl⟩
  · intro n kind xs hn ih position
    have hslots : ∀ position, b.Gapless position (position + b.widthOfAll xs)
        ((b.lay position xs).flatMap b.locatedAt) := by
      clear hn
      induction xs with
      | nil => exact fun _ => rfl
      | cons y xs ihxs =>
        have hrest := ihxs fun y hy => ih y (List.mem_cons_of_mem _ hy)
        cases y with
        | none => exact hrest
        | some y =>
          intro position
          rw [lay, List.flatMap_cons, widthOfAll_cons, ← Nat.add_assoc]
          exact (ih y List.mem_cons_self position).append (hrest _)
    rw [hb.locatedAt_node (made_of_shape hn), slotsOf_of_shape hn, hb.width n kind xs hn]
    exact hslots position

end Builder

/-! ## Starts of tokens -/

mutual

/-- A token of a tree starts where the tokens before it end. -/
theorem Tree.mem_located_tokens (position : Nat) (e : Numbered) {n p : Nat}
    (h : (.token n, p) ∈ e.located position) :
    ∃ t, (n, t) ∈ e.tokens ∧ (p, t) ∈ Token.located position e.unnumbered.tokens := by
  match e with
  | .token (number, t) =>
    cases List.mem_singleton.mp h
    exact ⟨t, List.mem_singleton_self _, List.mem_singleton_self _⟩
  | .node (number, kind) slots =>
    have hslots := (List.mem_cons.mp h).resolve_left nofun
    exact Slots.mem_located_tokens position slots hslots

theorem Slots.mem_located_tokens (position : Nat) (s : NumberedSlots) {n p : Nat}
    (h : (.token n, p) ∈ s.located position) :
    ∃ t, (n, t) ∈ s.tokens ∧
      (p, t) ∈ Token.located position (s.map Prod.snd Prod.snd).tokens := by
  match s with
  | .nil => cases h
  | .empty rest => exact Slots.mem_located_tokens position rest h
  | .filled e rest =>
    rw [Slots.map, Slots.tokens, Slots.tokens, Token.located_append]
    rcases List.mem_append.mp h with h | h
    · obtain ⟨t, ht, hp⟩ := Tree.mem_located_tokens position e h
      exact ⟨t, List.mem_append_left _ ht, List.mem_append_left _ hp⟩
    · obtain ⟨t, ht, hp⟩ := Slots.mem_located_tokens _ rest h
      rw [Tree.fullWidth_eq_totalWidth] at hp
      exact ⟨t, List.mem_append_right _ ht, List.mem_append_right _ hp⟩

end

theorem Slots.mem_tokens_ofList {β α : Type} {slots : List (Option (Tree β α))} {a : α} :
    a ∈ (Slots.ofList slots).tokens ↔ ∃ t, some t ∈ slots ∧ a ∈ t.tokens := by
  induction slots with
  | nil => simp [ofList, tokens]
  | cons s rest ih => cases s <;> simp [ofList, tokens, ih]

namespace Builder

variable {b : Builder} {x : ElementId} {e : Numbered} {n : Nat} {t : Token}

/-- The tokens of a tree are tokens of the builder. -/
theorem Formed.madeTokens_of_mem (hb : b.Formed) (he : b.element? x = some e)
    (h : (n, t) ∈ e.tokens) :
    b.madeTokens[n]? = some t := by
  have hmade : b.made x := made_iff_element?.mpr (by rw [he]; rfl)
  refine hb.induct (P := fun x => ∀ e, b.element? x = some e → (n, t) ∈ e.tokens →
    b.madeTokens[n]? = some t) ?_ ?_ hmade e he h
  · intro m hm e he h
    obtain ⟨t', ht'⟩ := exists_token (made_token.mpr hm)
    rw [element?_token ht'] at he
    cases he
    cases List.mem_singleton.mp h
    exact ht'
  · intro m kind xs hm ih e he h
    rw [hb.element?_node hm] at he
    cases he
    obtain ⟨e, he, h⟩ := Slots.mem_tokens_ofList.mp h
    obtain ⟨slot, hslot, hx⟩ := List.mem_map.mp he
    obtain ⟨x, rfl, hx⟩ := Option.bind_eq_some_iff.mp hx
    exact ih x hslot e hx h

/-- A token below an element starts where the tokens before it end. -/
theorem Formed.located_tokens (hb : b.Formed) (he : b.element? x = some e) {start p : Nat}
    (h : (.token n, p) ∈ b.locatedAt (x, start)) (ht : b.madeTokens[n]? = some t) :
    (p, t) ∈ Token.located start e.unnumbered.tokens := by
  rw [locatedAt, he] at h
  obtain ⟨t', ht', hp⟩ := e.mem_located_tokens start h
  rw [hb.madeTokens_of_mem he ht', Option.some.injEq] at ht
  exact ht ▸ hp

end Builder

end Stylesheet
