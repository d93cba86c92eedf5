import Stylesheet.Sheet.Draft
import Stylesheet.Tree.Builder
import Mathlib.Data.List.ReduceOption

/-!
# What a tree takes up

Numbers of elements, places in the table of slots and sizes all have 32 bits. A tree takes up some
of each: a number for each token and for each node, a place for each slot, and the bytes it is wide.

Results:
* `Tree.usage`: how much of a resource an element takes up.
* `Draft.usage_composite`: a node takes up what its slots and what stands in them take up.
* `Draft.Fit`: whether there is enough for some drafts.
-/
namespace Stylesheet

/-- What there is a limited amount of. -/
inductive Resource where
  | tokens
  | nodes
  | slots
  | bytes
  deriving DecidableEq

namespace Resource

/-- What a token takes up. -/
def ofToken : Resource → Token → Nat
  | .tokens, _ => 1
  | .bytes, t => t.fullWidth
  | _, _ => 0

/-- What a node takes up, but for its slots. -/
def ofNode : Resource → Nat
  | .nodes => 1
  | _ => 0

/-- What a slot takes up, but for what stands in it. -/
def ofSlot : Resource → Nat
  | .slots => 1
  | _ => 0

/-- The most there is. The last number is a number too; a sum of sizes has to be one itself, and so
has the place where the next slots start. -/
def most : Resource → Nat
  | .tokens | .nodes => sizeLimit
  | .slots | .bytes => sizeLimit - 1

end Resource

mutual

/-- How much of a resource an element takes up. -/
def Tree.usage (r : Resource) : Tree Kind Token → Nat
  | .token t => r.ofToken t
  | .node _ slots => r.ofNode + slots.usage r

def Slots.usage (r : Resource) : Slots Kind Token → Nat
  | .nil => 0
  | .empty rest => r.ofSlot + rest.usage r
  | .filled e rest => r.ofSlot + e.usage r + rest.usage r

end

mutual

theorem Tree.usage_bytes (e : Tree Kind Token) : e.usage .bytes = e.fullWidth := by
  match e with
  | .token t => rfl
  | .node _ slots => simp [Tree.usage, Tree.fullWidth, Resource.ofNode, Slots.usage_bytes slots]

theorem Slots.usage_bytes (s : Slots Kind Token) : s.usage .bytes = s.fullWidth := by
  match s with
  | .nil => rfl
  | .empty rest => simp [Slots.usage, Slots.fullWidth, Resource.ofSlot, Slots.usage_bytes rest]
  | .filled e rest =>
    simp [Slots.usage, Slots.fullWidth, Resource.ofSlot, Tree.usage_bytes e, Slots.usage_bytes rest]

end

mutual

theorem Tree.usage_tokens (e : Tree Kind Token) : e.usage .tokens = e.tokens.length := by
  match e with
  | .token t => rfl
  | .node _ slots => simp [Tree.usage, Tree.tokens, Resource.ofNode, Slots.usage_tokens slots]

theorem Slots.usage_tokens (s : Slots Kind Token) : s.usage .tokens = s.tokens.length := by
  match s with
  | .nil => rfl
  | .empty rest => simp [Slots.usage, Slots.tokens, Resource.ofSlot, Slots.usage_tokens rest]
  | .filled e rest =>
    simp [Slots.usage, Slots.tokens, Resource.ofSlot, Tree.usage_tokens e, Slots.usage_tokens rest]

end

mutual

/-- Every element but the one at the top stands in a slot of its own. -/
theorem Tree.usage_elements_le (e : Tree Kind Token) :
    e.usage .tokens + e.usage .nodes ≤ e.usage .slots + 1 := by
  match e with
  | .token t => simp [Tree.usage, Resource.ofToken]
  | .node _ slots =>
    have hslots := Slots.usage_elements_le slots
    simp only [Tree.usage, Resource.ofNode]
    omega

theorem Slots.usage_elements_le (s : Slots Kind Token) :
    s.usage .tokens + s.usage .nodes ≤ s.usage .slots := by
  match s with
  | .nil => simp [Slots.usage]
  | .empty rest =>
    have hrest := Slots.usage_elements_le rest
    simp only [Slots.usage, Resource.ofSlot]
    omega
  | .filled e rest =>
    have hfirst := Tree.usage_elements_le e
    have hrest := Slots.usage_elements_le rest
    simp only [Slots.usage, Resource.ofSlot]
    omega

end

namespace Draft

variable {r : Resource} {ds es : List Draft}

/-- How much of a resource some drafts take up. -/
def usage (r : Resource) : List Draft → Nat
  | [] => 0
  | d :: ds => d.element.usage r + usage r ds

@[simp] theorem usage_nil (r : Resource) : usage r [] = 0 := rfl

@[simp] theorem usage_append (r : Resource) (ds es : List Draft) :
    usage r (ds ++ es) = usage r ds + usage r es := by
  induction ds with
  | nil => simp [usage]
  | cons d ds ih => simp [usage, ih, Nat.add_assoc]

@[simp] theorem usage_cons (r : Resource) (d : Draft) (ds : List Draft) :
    usage r (d :: ds) = d.element.usage r + usage r ds := rfl

theorem usage_ofList (r : Resource) (slots : List (Option Draft)) :
    ((Slots.ofList slots).map id Piece.token).usage r
      = r.ofSlot * slots.length + usage r slots.reduceOption := by
  induction slots with
  | nil => rfl
  | cons slot slots ih =>
    cases slot with
    | none =>
      rw [Slots.ofList, Slots.map, Slots.usage, ih, List.reduceOption_cons_of_none,
        List.length_cons, Nat.mul_succ]
      omega
    | some d =>
      rw [Slots.ofList, Slots.map, Slots.usage, ih, List.reduceOption_cons_of_some, usage_cons,
        List.length_cons, Nat.mul_succ]
      show r.ofSlot + d.element.usage r + _ = _
      omega

/-- A node takes up what its slots take up and what stands in them. -/
theorem usage_composite (r : Resource) (kind : Kind) (slots : List (Option Draft)) :
    (composite kind slots).element.usage r
      = r.ofNode + (r.ofSlot * slots.length + usage r slots.reduceOption) := by
  rw [← usage_ofList]
  rfl

/-- Whether there is enough of everything for some drafts. -/
def Fit (ds : List Draft) : Prop := ∀ r, usage r ds ≤ r.most

theorem Fit.mono (h : Fit ds) (hle : ∀ r, usage r es ≤ usage r ds) : Fit es :=
  fun r => Nat.le_trans (hle r) (h r)

end Draft

end Stylesheet
