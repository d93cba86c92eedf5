import Stylesheet.Sheet.Cursor
import Stylesheet.Sheet.Draft

/-!
# Moving a cursor over lexemes

`c.Passes ls c'` says that the lexemes `ls` stand between the cursors `c` and `c'`: they are the
next ones at `c`, and `c'` is `c` behind them. Every production moves its cursor in this way and in
no other, so what it read can be told from its two ends.

Results:
* `Cursor.Passes.trans`: stretches that follow one another are one stretch.
* `Cursor.passes_take`: what `Cursor.advance` moves over.
* `Cursor.Passes.stand`: a stretch of no lexeme ends where it began.
-/
namespace Stylesheet

theorem Lexeme.widthOf_append (a b : List Lexeme) :
    Lexeme.widthOf (a ++ b) = Lexeme.widthOf a + Lexeme.widthOf b := by
  induction a with
  | nil => simp [Lexeme.widthOf]
  | cons l ls ih => simp [Lexeme.widthOf, ih, Nat.add_assoc]

theorem Lexeme.textOf_append (a b : List Lexeme) :
    Lexeme.textOf (a ++ b) = Lexeme.textOf a ++ Lexeme.textOf b := by
  simp [Lexeme.textOf]

namespace Cursor

/-- The lexemes `ls` are the next ones at `c`, and `c'` stands behind them. -/
structure Passes (c : Cursor) (ls : List Lexeme) (c' : Cursor) : Prop where
  ahead : c.ahead = ls ++ c'.ahead
  offset : c'.offset = c.offset + Lexeme.widthOf ls
  behind : c'.behind = ls.getLast?.or c.behind
  final : c'.final = c.final

variable {c c₁ c₂ : Cursor} {a b : List Lexeme} {l : Lexeme}

theorem Passes.refl (c : Cursor) : c.Passes [] c := ⟨by simp, by simp [Lexeme.widthOf], by simp, rfl⟩

theorem Passes.trans (h₁ : c.Passes a c₁) (h₂ : c₁.Passes b c₂) : c.Passes (a ++ b) c₂ := by
  refine ⟨?_, ?_, ?_, h₂.final.trans h₁.final⟩
  · rw [h₁.ahead, h₂.ahead, List.append_assoc]
  · rw [h₂.offset, h₁.offset, Lexeme.widthOf_append, Nat.add_assoc]
  · rw [h₂.behind, h₁.behind, List.getLast?_append, Option.or_assoc]

/-- A stretch of no lexeme ends where it began. -/
theorem Passes.stand (h : c.Passes [] c₁) : c₁ = c := by
  obtain ⟨hahead, hoffset, hbehind, hfinal⟩ := h
  cases c; cases c₁
  simp_all [Lexeme.widthOf]

/-- A stretch has one end. -/
theorem Passes.unique (h₁ : c.Passes a c₁) (h₂ : c.Passes a c₂) : c₁ = c₂ := by
  have hahead := List.append_cancel_left (h₁.ahead.symm.trans h₂.ahead)
  have hoffset := h₁.offset.trans h₂.offset.symm
  have hbehind := h₁.behind.trans h₂.behind.symm
  have hfinal := h₁.final.trans h₂.final.symm
  cases c₁; cases c₂
  simp_all

theorem passes_take (c : Cursor) (count : Nat) :
    c.Passes (c.ahead.take count) (c.advance count) :=
  ⟨(List.take_append_drop count c.ahead).symm, rfl, rfl, rfl⟩

theorem passes_one {rest : List Lexeme} (h : c.ahead = l :: rest) : c.Passes [l] (c.advance 1) := by
  simpa [h] using passes_take c 1

theorem advance_advance (c : Cursor) (i j : Nat) : (c.advance i).advance j = c.advance (i + j) := by
  have htwo := (c.passes_take i).trans ((c.advance i).passes_take j)
  have hone := c.passes_take (i + j)
  rw [List.take_add] at hone
  exact htwo.unique hone

@[simp] theorem advance_zero (c : Cursor) : c.advance 0 = c := (c.passes_take 0).stand

/-- A cursor behind some lexemes is known by their number. -/
theorem Passes.eq_advance (h : c.Passes a c₁) : c₁ = c.advance a.length := by
  have htake := c.passes_take a.length
  rw [h.ahead, List.take_left] at htake
  exact h.unique htake

theorem Passes.length_le (h : c.Passes a c₁) : c₁.ahead.length ≤ c.ahead.length := by
  rw [h.ahead]; simp

theorem Passes.length_lt (h : c.Passes a c₁) (ha : a ≠ []) : c₁.ahead.length < c.ahead.length := by
  have := List.length_pos_iff.mpr ha
  rw [h.ahead, List.length_append]; omega

/-- The first lexeme passed is the next one. -/
theorem Passes.next_eq (h : c.Passes (l :: a) c₁) : c.next = l := by
  rw [next, h.ahead]; rfl

theorem Passes.kind_eq (h : c.Passes (l :: a) c₁) : c.kind = l.kind := by
  simp [kind, kindAt, Lexeme.kindAt, h.ahead]

/-- What is not the end is a lexeme ahead. -/
theorem exists_ahead (h : c.kind ≠ .eof) : ∃ l rest, c.ahead = l :: rest ∧ l.kind = c.kind := by
  cases hc : c.ahead with
  | nil => simp [kind, kindAt, Lexeme.kindAt, hc] at h
  | cons l rest => exact ⟨l, rest, rfl, by simp [kind, kindAt, Lexeme.kindAt, hc]⟩

theorem kindAt_one_of_ahead {m : Lexeme} {rest : List Lexeme} (h : c.ahead = l :: m :: rest) :
    c.kindAt 1 = m.kind := by
  simp [kindAt, Lexeme.kindAt, h]

/-- What is not the end two places on is a lexeme behind the next one. -/
theorem exists_ahead_two (h : c.kindAt 1 ≠ .eof) :
    ∃ l m rest, c.ahead = l :: m :: rest ∧ l.kind = c.kind ∧ m.kind = c.kindAt 1 := by
  match hc : c.ahead with
  | [] => simp [kindAt, Lexeme.kindAt, hc] at h
  | [l] => simp [kindAt, Lexeme.kindAt, hc] at h
  | l :: m :: rest =>
    exact ⟨l, m, rest, rfl, by simp [kind, kindAt, Lexeme.kindAt, hc],
      (kindAt_one_of_ahead hc).symm⟩

end Cursor

/-! ## The lexemes of drafts -/

namespace Draft

/-- The lexemes below several slots, in order. -/
def lexemesOf (slots : List (Option Draft)) : List Lexeme :=
  slots.flatMap fun s => (s.map lexemes).getD []

@[simp] theorem lexemesOf_nil : lexemesOf [] = [] := rfl

@[simp] theorem lexemesOf_append (a b : List (Option Draft)) :
    lexemesOf (a ++ b) = lexemesOf a ++ lexemesOf b := by
  simp [lexemesOf]

@[simp] theorem lexemesOf_none (rest : List (Option Draft)) :
    lexemesOf (none :: rest) = lexemesOf rest := rfl

@[simp] theorem lexemesOf_some (d : Draft) (rest : List (Option Draft)) :
    lexemesOf (some d :: rest) = d.lexemes ++ lexemesOf rest := rfl

/-- The pieces below several slots, in order. -/
def piecesOf (slots : List (Option Draft)) : List Piece :=
  slots.flatMap fun s => (s.map Tree.tokens).getD []

@[simp] theorem piecesOf_append (a b : List (Option Draft)) :
    piecesOf (a ++ b) = piecesOf a ++ piecesOf b := by
  simp [piecesOf]

@[simp] theorem piecesOf_nil : piecesOf [] = [] := rfl

@[simp] theorem piecesOf_none (rest : List (Option Draft)) :
    piecesOf (none :: rest) = piecesOf rest := rfl

@[simp] theorem piecesOf_some (d : Draft) (rest : List (Option Draft)) :
    piecesOf (some d :: rest) = d.tokens ++ piecesOf rest := rfl

theorem lexemesOf_eq (slots : List (Option Draft)) :
    lexemesOf slots = (piecesOf slots).flatMap Piece.lexemes := by
  simp only [lexemesOf, piecesOf, List.flatMap_assoc]
  congr 1
  funext s
  cases s <;> simp [lexemes]

theorem tokens_ofList (slots : List (Option Draft)) :
    (Slots.ofList slots).tokens = piecesOf slots := by
  induction slots with
  | nil => rfl
  | cons s rest ih =>
    cases s with
    | none => simpa [Slots.ofList, Slots.tokens] using ih
    | some d => simp [Slots.ofList, Slots.tokens, ih]

@[simp] theorem tokens_composite (kind : Kind) (slots : List (Option Draft)) :
    Tree.tokens (composite kind slots) = piecesOf slots := tokens_ofList slots

@[simp] theorem lexemes_composite (kind : Kind) (slots : List (Option Draft)) :
    (composite kind slots).lexemes = lexemesOf slots := by
  rw [lexemesOf_eq, ← tokens_composite kind]; rfl

@[simp] theorem lexemes_run (kind : Kind) (first : Lexeme) (more : List Lexeme) :
    lexemes (Tree.token (.run kind first more)) = first :: more := by
  simp [lexemes, Tree.tokens, Piece.lexemes]

@[simp] theorem lexemes_single (kind : Kind) (l : Lexeme) : (single kind l).lexemes = [l] :=
  lexemes_run kind l []

@[simp] theorem lexemes_missing (kind : Kind) : (missing kind).lexemes = [] := rfl

@[simp] theorem tokens_run (kind : Kind) (first : Lexeme) (more : List Lexeme) :
    Tree.tokens (Tree.token (.run kind first more) : Draft) = [.run kind first more] := rfl

@[simp] theorem tokens_single (kind : Kind) (l : Lexeme) :
    Tree.tokens (single kind l) = [.run kind l []] := rfl

@[simp] theorem tokens_missing (kind : Kind) : Tree.tokens (missing kind) = [.missing kind] := rfl

theorem piecesOf_singles (ls : List Lexeme) :
    piecesOf (ls.map fun l => some (single l.kind l)) = ls.map fun l => .run l.kind l [] := by
  induction ls with
  | nil => rfl
  | cons l ls ih => simp [ih]

theorem lexemesOf_singles (ls : List Lexeme) :
    lexemesOf (ls.map fun l => some (single l.kind l)) = ls := by
  induction ls with
  | nil => rfl
  | cons l ls ih => simp [ih]

@[simp] theorem lexemesOf_list (items : List Draft) :
    lexemesOf [list items] = lexemesOf (items.map some) := by
  cases items <;> simp [list]

end Draft

end Stylesheet
