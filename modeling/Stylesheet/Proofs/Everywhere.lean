import Stylesheet.Tree.Element

/-!
# Properties of all nodes

A property of the nodes of a tree speaks of the label of a node and of its slots. A tree has it if
all its nodes do.

Results:
* `Tree.Everywhere`: whether all nodes have a property.
* `Tree.Everywhere.mono`, `Tree.everywhere_map`: for weaker properties and for other labels.
* `Kind.Fits`: whether slots have the number that their kind asks for.
-/
namespace Stylesheet

section Everywhere

variable {β α γ δ : Type}

mutual

/-- Whether each node of a tree has a property of its label and its slots. -/
def Tree.Everywhere (P : β → Slots β α → Prop) : Tree β α → Prop
  | .token _ => True
  | .node b slots => P b slots ∧ slots.Everywhere P

def Slots.Everywhere (P : β → Slots β α → Prop) : Slots β α → Prop
  | .nil => True
  | .empty rest => rest.Everywhere P
  | .filled t rest => t.Everywhere P ∧ rest.Everywhere P

end

theorem Slots.everywhere_append (P : β → Slots β α → Prop) (a b : List (Option (Tree β α))) :
    (ofList (a ++ b)).Everywhere P ↔ (ofList a).Everywhere P ∧ (ofList b).Everywhere P := by
  induction a with
  | nil => simp [ofList, Everywhere]
  | cons t rest ih => cases t <;> simp [ofList, Everywhere, ih, and_assoc]

mutual

theorem Tree.everywhere_map (P : γ → Slots γ δ → Prop) (f : β → γ) (g : α → δ) (t : Tree β α) :
    (t.map f g).Everywhere P ↔ t.Everywhere fun b s => P (f b) (s.map f g) := by
  match t with
  | .token _ => exact Iff.rfl
  | .node b s => simp [Tree.map, Tree.Everywhere, Slots.everywhere_map P f g s]

theorem Slots.everywhere_map (P : γ → Slots γ δ → Prop) (f : β → γ) (g : α → δ) (s : Slots β α) :
    (s.map f g).Everywhere P ↔ s.Everywhere fun b s => P (f b) (s.map f g) := by
  match s with
  | .nil => exact Iff.rfl
  | .empty rest => exact Slots.everywhere_map P f g rest
  | .filled t rest =>
    simp [Slots.map, Slots.Everywhere, Tree.everywhere_map P f g t, Slots.everywhere_map P f g rest]

end

mutual

theorem Tree.Everywhere.mono {P Q : β → Slots β α → Prop} (h : ∀ b s, P b s → Q b s) {t : Tree β α}
    (ht : t.Everywhere P) : t.Everywhere Q := by
  match t with
  | .token _ => trivial
  | .node b s => exact ⟨h b s ht.1, Slots.Everywhere.mono h ht.2⟩

theorem Slots.Everywhere.mono {P Q : β → Slots β α → Prop} (h : ∀ b s, P b s → Q b s)
    {s : Slots β α} (hs : s.Everywhere P) : s.Everywhere Q := by
  match s with
  | .nil => trivial
  | .empty rest => exact Slots.Everywhere.mono (s := rest) h hs
  | .filled t rest =>
    exact ⟨Tree.Everywhere.mono h hs.1, Slots.Everywhere.mono h hs.2⟩

end

mutual

def Tree.decidableEverywhere {P : β → Slots β α → Prop} [∀ b s, Decidable (P b s)] :
    (t : Tree β α) → Decidable (t.Everywhere P)
  | .token _ => .isTrue trivial
  | .node b s =>
    have := Slots.decidableEverywhere (P := P) s
    inferInstanceAs (Decidable (P b s ∧ s.Everywhere P))

def Slots.decidableEverywhere {P : β → Slots β α → Prop} [∀ b s, Decidable (P b s)] :
    (s : Slots β α) → Decidable (s.Everywhere P)
  | .nil => .isTrue trivial
  | .empty rest => Slots.decidableEverywhere (P := P) rest
  | .filled t rest =>
    have := Tree.decidableEverywhere (P := P) t
    have := Slots.decidableEverywhere (P := P) rest
    inferInstanceAs (Decidable (t.Everywhere P ∧ rest.Everywhere P))

end

instance {P : β → Slots β α → Prop} [∀ b s, Decidable (P b s)] (s : Slots β α) :
    Decidable (s.Everywhere P) :=
  s.decidableEverywhere

theorem Slots.length_map (f : β → γ) (g : α → δ) (s : Slots β α) :
    (s.map f g).length = s.length := by
  match s with
  | .nil => rfl
  | .empty rest => simp [Slots.map, Slots.length, length_map f g rest]
  | .filled _ rest => simp [Slots.map, Slots.length, length_map f g rest]

theorem Slots.toList_map (f : β → γ) (g : α → δ) (s : Slots β α) :
    (s.map f g).toList = s.toList.map (Option.map (Tree.map f g)) := by
  cases s with
  | nil => rfl
  | empty rest => exact congrArg (none :: ·) (rest.toList_map f g)
  | filled t rest => exact congrArg (some (t.map f g) :: ·) (rest.toList_map f g)

theorem Slots.length_ofList (ts : List (Option (Tree β α))) : (ofList ts).length = ts.length := by
  rw [← length_toList, toList_ofList]

end Everywhere

/-- Kinds and slot counts are as a builder wants them. -/
def Kind.Fits (kind : Kind) (slots : Slots Kind Token) : Prop :=
  kind.isComposite ∧ ∀ count, kind.slotCount? = some count → slots.length = count

end Stylesheet
