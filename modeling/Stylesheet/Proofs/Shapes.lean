import Stylesheet.Proofs.Layout
import Stylesheet.Proofs.Passing

/-!
# Drafts without their lexemes

What is left of a draft without its lexemes is its shape: nodes, empty slots, and for each piece
its kind and the number of its lexemes. A draft can be told from its shape and its lexemes. Pieces
are numbered for this: a mark says which lexemes of a list a piece is made of.

Results:
* `Draft.shape_composite`, `Draft.shape_list`: shapes of nodes and of lists.
* `Tree.eq_marked`: a draft is its marked shape, filled with its lexemes.
* `Slots.indices_marked`: marks follow one another, from the first lexeme to the last.
-/
namespace Stylesheet

/-! ## Shapes -/

/-- A piece without its lexemes: its kind, and how many they are. -/
def Piece.shape (p : Piece) : Kind × Nat := (p.kind, p.lexemes.length)

/-- A draft without its lexemes. -/
def Draft.shape (d : Draft) : Tree Kind (Kind × Nat) := d.map id Piece.shape

section Map

variable {β γ ε α δ ζ : Type}

mutual

theorem Tree.map_map (f : β → γ) (g : α → δ) (f' : γ → ε) (g' : δ → ζ) (t : Tree β α) :
    (t.map f g).map f' g' = t.map (f' ∘ f) (g' ∘ g) := by
  match t with
  | .token a => rfl
  | .node b slots => exact congrArg (Tree.node _) (Slots.map_map f g f' g' slots)

theorem Slots.map_map (f : β → γ) (g : α → δ) (f' : γ → ε) (g' : δ → ζ) (s : Slots β α) :
    (s.map f g).map f' g' = s.map (f' ∘ f) (g' ∘ g) := by
  match s with
  | .nil => rfl
  | .empty rest => exact congrArg Slots.empty (Slots.map_map f g f' g' rest)
  | .filled t rest =>
    simp only [Slots.map, Tree.map_map f g f' g' t, Slots.map_map f g f' g' rest]

end

theorem Slots.map_ofList (f : β → γ) (g : α → δ) (slots : List (Option (Tree β α))) :
    (Slots.ofList slots).map f g = Slots.ofList (slots.map (Option.map (Tree.map f g))) := by
  induction slots with
  | nil => rfl
  | cons s rest ih => cases s <;> simp [Slots.ofList, Slots.map, ih]

end Map

namespace Draft

theorem shape_composite (kind : Kind) (slots : List (Option Draft)) :
    (composite kind slots).shape = .node kind (.ofList (slots.map (Option.map shape))) :=
  congrArg (Tree.node kind) (Slots.map_ofList id Piece.shape slots)

theorem shape_composite_congr (kind : Kind) {a b : List (Option Draft)}
    (h : a.map (Option.map shape) = b.map (Option.map shape)) :
    (composite kind a).shape = (composite kind b).shape := by
  rw [shape_composite, shape_composite, h]

/-- Lists of items with the same shapes have the same shape. -/
theorem shape_list {a b : List Draft} (h : a.map shape = b.map shape) :
    (list a).map shape = (list b).map shape := by
  have hlen : a.length = b.length := by simpa using congrArg List.length h
  unfold list
  cases a with
  | nil => rw [List.length_eq_zero_iff.mp hlen.symm]
  | cons d rest =>
    cases b with
    | nil => cases hlen
    | cons e more =>
      refine congrArg some (shape_composite_congr .list ?_)
      simpa [List.map_map, Function.comp_def] using congrArg (List.map some) h

theorem isEmpty_congr {a b : List Draft} (h : a.map shape = b.map shape) : a.isEmpty = b.isEmpty := by
  cases a with
  | nil => rw [List.map_eq_nil_iff.mp h.symm]
  | cons d rest =>
    obtain ⟨e, more, rfl, -, -⟩ := List.map_eq_cons_iff.mp h.symm
    rfl

end Draft

/-! ## Marks -/

/-- Which lexemes of a list a piece is made of: one at an index and some behind it, or none. -/
inductive Mark where
  | run (kind : Kind) (first more : Nat)
  | missing (kind : Kind)
  deriving DecidableEq, Repr

namespace Mark

/-- The indices of the lexemes of a mark. -/
def indices : Mark → List Nat
  | run _ first more => List.range' first (more + 1)
  | missing _ => []

/-- The piece that a mark stands for. Behind the end of the list there is none. -/
def piece (ls : List Lexeme) : Mark → Piece
  | run kind first more =>
    match ls.drop first with
    | l :: rest => .run kind l (rest.take more)
    | [] => .missing kind
  | missing kind => .missing kind

end Mark

mutual

/-- The number of lexemes below a shape. -/
def Tree.lexemeCount : Tree Kind (Kind × Nat) → Nat
  | .token (_, count) => count
  | .node _ slots => slots.lexemeCount

def Slots.lexemeCount : Slots Kind (Kind × Nat) → Nat
  | .nil => 0
  | .empty rest => rest.lexemeCount
  | .filled s rest => s.lexemeCount + rest.lexemeCount

end

mutual

/-- A shape whose first lexeme has an index, each piece with the indices of its lexemes. -/
def Tree.marked (index : Nat) : Tree Kind (Kind × Nat) → Tree Kind Mark
  | .token (kind, 0) => .token (.missing kind)
  | .token (kind, more + 1) => .token (.run kind index more)
  | .node kind slots => .node kind (slots.marked index)

def Slots.marked (index : Nat) : Slots Kind (Kind × Nat) → Slots Kind Mark
  | .nil => .nil
  | .empty rest => .empty (rest.marked index)
  | .filled s rest => .filled (s.marked index) (rest.marked (index + s.lexemeCount))

end

mutual

theorem Tree.indices_marked (index : Nat) (s : Tree Kind (Kind × Nat)) :
    (s.marked index).tokens.flatMap Mark.indices = List.range' index s.lexemeCount := by
  match s with
  | .token (kind, 0) => rfl
  | .token (kind, more + 1) => simp [Tree.marked, Tree.tokens, Mark.indices, Tree.lexemeCount]
  | .node kind slots => exact Slots.indices_marked index slots

/-- Marks follow one another. -/
theorem Slots.indices_marked (index : Nat) (s : Slots Kind (Kind × Nat)) :
    (s.marked index).tokens.flatMap Mark.indices = List.range' index s.lexemeCount := by
  match s with
  | .nil => rfl
  | .empty rest => exact Slots.indices_marked index rest
  | .filled s rest =>
    simp only [Slots.marked, Slots.tokens, List.flatMap_append, Slots.lexemeCount]
    rw [Tree.indices_marked index s, Slots.indices_marked (index + s.lexemeCount) rest,
      List.range'_append_1]

end

mutual

theorem Tree.lexemeCount_shape (d : Tree Kind Piece) :
    (d.map id Piece.shape).lexemeCount = (d.tokens.flatMap Piece.lexemes).length := by
  match d with
  | .token p => simp [Tree.map, Tree.lexemeCount, Tree.tokens, Piece.shape]
  | .node kind slots => exact Slots.lexemeCount_shape slots

/-- A shape has as many lexemes as its draft. -/
theorem Slots.lexemeCount_shape (s : Slots Kind Piece) :
    (s.map id Piece.shape).lexemeCount = (s.tokens.flatMap Piece.lexemes).length := by
  match s with
  | .nil => rfl
  | .empty rest => exact Slots.lexemeCount_shape rest
  | .filled d rest =>
    simp [Slots.map, Slots.lexemeCount, Slots.tokens, Tree.lexemeCount_shape d,
      Slots.lexemeCount_shape rest]

end

mutual

theorem Tree.eq_marked (d : Tree Kind Piece) (before after : List Lexeme) :
    ((d.map id Piece.shape).marked before.length).map id
      (Mark.piece (before ++ d.tokens.flatMap Piece.lexemes ++ after)) = d := by
  match d with
  | .token (.missing kind) => rfl
  | .token (.run kind first more) =>
    simp [Tree.map, Piece.shape, Piece.lexemes, Piece.kind, Tree.marked, Tree.tokens, Mark.piece]
  | .node kind slots => exact congrArg (Tree.node kind) (Slots.eq_marked slots before after)

/-- Slots are their marked shape, filled with their lexemes. -/
theorem Slots.eq_marked (s : Slots Kind Piece) (before after : List Lexeme) :
    ((s.map id Piece.shape).marked before.length).map id
      (Mark.piece (before ++ s.tokens.flatMap Piece.lexemes ++ after)) = s := by
  match s with
  | .nil => rfl
  | .empty rest => exact congrArg Slots.empty (Slots.eq_marked rest before after)
  | .filled d rest =>
    have hfirst := Tree.eq_marked d before (rest.tokens.flatMap Piece.lexemes ++ after)
    have hrest := Slots.eq_marked rest (before ++ d.tokens.flatMap Piece.lexemes) after
    simp only [Slots.map, Slots.marked, Slots.tokens, List.flatMap_append]
    rw [List.length_append, ← Tree.lexemeCount_shape] at hrest
    simp only [List.append_assoc] at hfirst hrest ⊢
    rw [hfirst, hrest]

end

/-- Slots can be told from their shape and their lexemes. -/
theorem Slots.eq_of_shape {s t : Slots Kind Piece}
    (hs : s.map id Piece.shape = t.map id Piece.shape)
    (hl : s.tokens.flatMap Piece.lexemes = t.tokens.flatMap Piece.lexemes) : s = t := by
  have h₁ := Slots.eq_marked s [] []
  have h₂ := Slots.eq_marked t [] []
  rw [hs, hl] at h₁
  exact h₁.symm.trans h₂

end Stylesheet
