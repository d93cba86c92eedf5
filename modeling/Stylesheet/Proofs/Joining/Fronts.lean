import Stylesheet.Proofs.Joining.Openings
import Stylesheet.Proofs.Joining.Scanning
import Stylesheet.Proofs.Shapes

/-!
# More trivia in front of a style sheet

Trivia in front of a style sheet belongs to its first token; the rest of the tree does not change.

Results:
* `Slots.mapFirst`: slots with another label on their first token.
* `Slots.mapFirst_document`: in a document, the first token is that of the first item.
* `Piece.token_lead`, `Piece.Open.lexemes_modifyHead`: more trivia for the first lexeme is more
  trivia for the first token.
-/
namespace Stylesheet

variable {α β γ δ : Type}

/-! ## First tokens -/

mutual

/-- A tree with another label on its first token. -/
def Tree.mapFirst (f : α → α) : Tree β α → Tree β α
  | .token a => .token (f a)
  | .node b slots => .node b (slots.mapFirst f)

/-- Slots with another label on their first token. A slot may hold no token. -/
def Slots.mapFirst (f : α → α) : Slots β α → Slots β α
  | .nil => .nil
  | .empty rest => .empty (rest.mapFirst f)
  | .filled t rest =>
    if t.tokens.isEmpty then .filled t (rest.mapFirst f) else .filled (t.mapFirst f) rest

end

mutual

theorem Tree.tokens_mapFirst (f : α → α) (t : Tree β α) :
    (t.mapFirst f).tokens = t.tokens.modifyHead f := by
  match t with
  | .token a => rfl
  | .node b slots => exact Slots.tokens_mapFirst f slots

theorem Slots.tokens_mapFirst (f : α → α) (s : Slots β α) :
    (s.mapFirst f).tokens = s.tokens.modifyHead f := by
  match s with
  | .nil => rfl
  | .empty rest => exact Slots.tokens_mapFirst f rest
  | .filled t rest =>
    unfold Slots.mapFirst
    cases ht : t.tokens with
    | nil => simp [Slots.tokens, ht, Slots.tokens_mapFirst f rest]
    | cons a more => simp [Slots.tokens, ht, Tree.tokens_mapFirst f t]

end

mutual

theorem Tree.map_mapFirst {f : α → α} {g : γ → γ} {h : α → γ} (k : β → δ)
    (hh : ∀ a, h (f a) = g (h a)) (t : Tree β α) :
    (t.mapFirst f).map k h = (t.map k h).mapFirst g := by
  match t with
  | .token a => exact congrArg Tree.token (hh a)
  | .node b slots => exact congrArg (Tree.node _) (Slots.map_mapFirst k hh slots)

/-- What labels become does not depend on which one is changed first. -/
theorem Slots.map_mapFirst {f : α → α} {g : γ → γ} {h : α → γ} (k : β → δ)
    (hh : ∀ a, h (f a) = g (h a)) (s : Slots β α) :
    (s.mapFirst f).map k h = (s.map k h).mapFirst g := by
  match s with
  | .nil => rfl
  | .empty rest => exact congrArg Slots.empty (Slots.map_mapFirst k hh rest)
  | .filled t rest =>
    simp only [Slots.mapFirst, Slots.map, Tree.tokens_map, List.isEmpty_map]
    split
    · exact congrArg (Slots.filled _) (Slots.map_mapFirst k hh rest)
    · exact congrArg (Slots.filled · _) (Tree.map_mapFirst k hh t)

end

mutual

theorem Tree.mapFirst_id (t : Tree β α) : t.mapFirst id = t := by
  match t with
  | .token a => rfl
  | .node b slots => exact congrArg (Tree.node b) (Slots.mapFirst_id slots)

theorem Slots.mapFirst_id (s : Slots β α) : s.mapFirst id = s := by
  match s with
  | .nil => rfl
  | .empty rest => exact congrArg Slots.empty (Slots.mapFirst_id rest)
  | .filled t rest =>
    unfold Slots.mapFirst
    split
    · exact congrArg (Slots.filled t) (Slots.mapFirst_id rest)
    · exact congrArg (Slots.filled · rest) (Tree.mapFirst_id t)

end

/-! ## Documents -/

namespace Slots

/-- The slots of a document: the list of its items, and what ends it. -/
def document (items : List (Tree Kind α)) (final : Tree Kind α) : Slots Kind α :=
  match items with
  | [] => .empty (.filled final .nil)
  | _ :: _ => .filled (.node .list (.ofList (items.map some))) (.filled final .nil)

theorem ofList_document (items : List Draft) (final : Draft) :
    Slots.ofList [Draft.list items, some final] = document items final := by
  cases items <;> rfl

theorem map_document (f : α → γ) (items : List (Tree Kind α)) (final : Tree Kind α) :
    (document items final).map id f = document (items.map (Tree.map id f)) (final.map id f) := by
  cases items with
  | nil => rfl
  | cons t ts =>
    simp [document, Slots.map, Tree.map, Slots.map_ofList, Slots.ofList, Function.comp_def]

theorem tokens_ofList_some (items : List (Tree Kind α)) :
    (Slots.ofList (items.map some)).tokens = items.flatMap Tree.tokens := by
  induction items with
  | nil => rfl
  | cons t ts ih => simp [Slots.ofList, Slots.tokens, ih]

theorem tokens_document (items : List (Tree Kind α)) (final : Tree Kind α) :
    (document items final).tokens = items.flatMap Tree.tokens ++ final.tokens := by
  cases items with
  | nil => simp [document, Slots.tokens]
  | cons t ts =>
    simp only [document, Slots.tokens, Tree.tokens, tokens_ofList_some, List.append_nil]

/-- In a document the first token is that of the first item, or ends it. -/
theorem mapFirst_document (f : α → α) {items : List (Tree Kind α)}
    (h : ∀ t ∈ items.head?, t.tokens ≠ []) (final : α) :
    (document items (.token final)).mapFirst f = document (items.modifyHead (Tree.mapFirst f))
      (.token (if items.isEmpty then f final else final)) := by
  cases items with
  | nil => rfl
  | cons t ts =>
    have ht : t.tokens ≠ [] := h t rfl
    simp [document, Slots.ofList, Slots.tokens, Tree.tokens, mapFirst, Tree.mapFirst, ht]

end Slots

/-! ## Trivia in front -/

/-- A token with more trivia in front of it. A missing one has none. -/
def Token.lead (trivia : List Trivia) : Token → Token
  | .present kind leading width trailing => .present kind (trivia ++ leading) width trailing
  | .missing kind => .missing kind

namespace Piece

/-- A piece with more trivia in front of it. -/
def lead (gaps : List Gap) : Piece → Piece
  | .run kind first more => .run kind (first.lead gaps) more
  | .missing kind => .missing kind

theorem shape_lead (gaps : List Gap) (p : Piece) : (p.lead gaps).shape = p.shape := by
  cases p <;> rfl

theorem joinedText_lead (gaps : List Gap) (first : Lexeme) (more : List Lexeme) :
    joinedText (first.lead gaps) more = joinedText first more := by
  cases more <;> rfl

theorem trailing_lead (gaps : List Gap) (first : Lexeme) (more : List Lexeme) :
    (lastOf (first.lead gaps) more).trailing = (lastOf first more).trailing := by
  unfold lastOf
  cases more.getLast? <;> rfl

theorem token_lead (gaps : List Gap) (p : Piece) :
    (p.lead gaps).token = p.token.lead (gaps.map Gap.trivia) := by
  cases p with
  | missing kind => rfl
  | run kind first more =>
    simp only [lead, token, Token.lead, joinedText_lead, trailing_lead]
    simp [Lexeme.lead]

/-- The first lexeme of open pieces is that of the first piece. -/
theorem Open.lexemes_modifyHead {ps : List Piece} (h : Open ps) (gaps : List Gap) :
    (ps.modifyHead (lead gaps)).flatMap lexemes
      = (ps.flatMap lexemes).modifyHead (Lexeme.lead gaps) := by
  obtain ⟨kind, first, more, rest, rfl⟩ := h
  rfl

end Piece

end Stylesheet
