import Stylesheet.Proofs.Origins.Productions
import Stylesheet.Proofs.Regions

/-!
# Parts of selectors hold together

Trivia ends a part of a selector: in a part each lexeme but the first is read only where it touches
the one before it, and where it does not something is missing instead. `Glued` follows a row of slots
that is filled in this way; `Sticks` is a row whose first lexeme touches what stands before the row,
so that it can go on with another one.

Results:
* `Glued.cons`, `Sticks.append`: rows that go on.
* `Production.selectorPart_glued`: the lexemes of a part touch.
* `snug_parts`: in a parse there is no trivia within a part.
-/
namespace Stylesheet

open Draft

variable {c c₁ c₂ c' : Cursor} {slots a b : List (Option Draft)} {slot : Option Draft}

/-! ## Rows of lexemes that touch -/

/-- Slots filled with lexemes each of which touches the one before it. -/
structure Glued (c : Cursor) (slots : List (Option Draft)) (c' : Cursor) : Prop where
  passes : c.Passes (lexemesOf slots) c'
  touch : (lexemesOf slots).IsChain fun l m => l.touches m

/-- The first lexeme, too, touches what stands before it. -/
structure Sticks (c : Cursor) (slots : List (Option Draft)) (c' : Cursor) : Prop
    extends Glued c slots c' where
  first : lexemesOf slots ≠ [] → c.touching

/-- A cursor that stands behind a lexeme touches it if the next one does. -/
theorem Cursor.Passes.touches {ls : List Lexeme} {l m : Lexeme} (h : c.Passes (m :: ls) c')
    (hl : c.behind = some l) (ht : c.touching) : l.touches m := by
  rwa [Cursor.touching, hl, h.next_eq] at ht

namespace Glued

theorem append (h₁ : Glued c a c₁) (h₂ : Sticks c₁ b c₂) : Glued c (a ++ b) c₂ := by
  constructor
  · rw [lexemesOf_append]
    exact h₁.passes.trans h₂.passes
  · rw [lexemesOf_append, List.isChain_append]
    refine ⟨h₁.touch, h₂.touch, ?_⟩
    intro l hl m hm
    obtain ⟨ls, hls⟩ := List.head?_eq_some_iff.mp hm
    have hpasses := h₂.passes
    rw [hls] at hpasses
    apply hpasses.touches
    · rw [h₁.passes.behind, Option.mem_def.mp hl]
      rfl
    · exact h₂.first (by simp [hls])

theorem cons (h₁ : Glued c [slot] c₁) (h₂ : Sticks c₁ slots c₂) : Glued c (slot :: slots) c₂ :=
  h₁.append h₂

/-- A slot that stays empty in front of a row. -/
theorem skip (h : Glued c slots c') : Glued c (none :: slots) c' :=
  ⟨h.passes, h.touch⟩

theorem node {kind : Kind} (h : Glued c slots c') : Glued c [some (composite kind slots)] c' := by
  have hlexemes : lexemesOf [some (composite kind slots)] = lexemesOf slots := by simp
  exact ⟨hlexemes ▸ h.passes, hlexemes ▸ h.touch⟩

end Glued

namespace Sticks

theorem nil (c : Cursor) : Sticks c [] c := ⟨⟨.refl c, .nil⟩, fun h => absurd rfl h⟩

theorem append (h₁ : Sticks c a c₁) (h₂ : Sticks c₁ b c₂) : Sticks c (a ++ b) c₂ := by
  refine ⟨h₁.toGlued.append h₂, fun h => ?_⟩
  by_cases ha : lexemesOf a = []
  · have hstand := h₁.passes
    rw [ha] at hstand
    rw [lexemesOf_append, ha, List.nil_append] at h
    exact hstand.stand ▸ h₂.first h
  · exact h₁.first ha

theorem cons (h₁ : Sticks c [slot] c₁) (h₂ : Sticks c₁ slots c₂) : Sticks c (slot :: slots) c₂ :=
  h₁.append h₂

/-- What is read only where the next lexeme touches. -/
theorem of_glued (h : Glued c slots c') (ht : c.touching) : Sticks c slots c' := ⟨h, fun _ => ht⟩

theorem missing (kind : Kind) (c : Cursor) : Sticks c [some (.missing kind)] c :=
  ⟨⟨.refl c, .nil⟩, fun h => absurd rfl h⟩

theorem empty (c : Cursor) : Sticks c [none] c := ⟨⟨.refl c, .nil⟩, fun h => absurd rfl h⟩

end Sticks

/-! ## What parts are read from -/

namespace Production

theorem takeAs_glued (kind : Kind) (c : Cursor) :
    Glued c [some (takeAs kind c).value] (takeAs kind c).rest := by
  cases hc : c.ahead with
  | nil =>
    have hx : (takeAs kind c).value = .missing kind ∧ (takeAs kind c).rest = c := by
      simp [takeAs, takeRun, hc]
    rw [hx.1, hx.2]
    exact (Sticks.missing kind c).toGlued
  | cons l rest =>
    rw [takeAs_apply kind hc]
    exact ⟨by simpa using Cursor.passes_one hc, by simp⟩

theorem take_glued (c : Cursor) : Glued c [some (take c).value] (take c).rest :=
  takeAs_glued c.kind c

theorem expectName_glued (c : Cursor) : Glued c [some (expectName c).value] (expectName c).rest := by
  by_cases h : c.kind.isName
  · rw [expectName_of_isName h]
    exact takeAs_glued .identifier c
  · rw [expectName_of_not h]
    exact (Sticks.missing .identifier c).toGlued

theorem touchingName_sticks (c : Cursor) :
    Sticks c [some (touchingName c).value] (touchingName c).rest := by
  by_cases h : c.touching ∧ nameStarts.contains c.kind
  · have hx : touchingName c = takeAs .identifier c := by simp [Parsing.touchingName, holds, look, h]
    rw [hx]
    exact .of_glued (takeAs_glued .identifier c) h.1
  · have hx : touchingName c = absent .identifier c := by simp [Parsing.touchingName, holds, look, h]
    rw [hx]
    exact .missing .identifier c

/-- What is read only where it touches, or not at all. -/
theorem optional_sticks {condition : Cursor → Bool} {p : Production Draft}
    (hp : ∀ c, Glued c [some (p c).value] (p c).rest) (hc : ∀ c, condition c → c.touching)
    (c : Cursor) :
    Sticks c [(optional (condition c) p c).value] (optional (condition c) p c).rest := by
  cases h : condition c with
  | false => exact .empty c
  | true =>
    rw [optional_true]
    exact .of_glued (hp c) (hc c h)

theorem touchingMark_sticks (c : Cursor) :
    Sticks c [(touchingMark c).value] (touchingMark c).rest :=
  @optional_sticks (fun c => c.touching && c.kind = .exclamationMark) _ take_glued
    (fun _ h => (Bool.and_eq_true_iff.mp h).1) c

theorem subPart_glued (c : Cursor) : Glued c [some (subPart c).value] (subPart c).rest := by
  by_cases hcolon : c.kind = .colon
  · rw [subPart_colon hcolon]
    exact .node <| (take_glued c).cons (touchingName_sticks _)
  by_cases hmarked : c.kind = .period ∨ c.kind = .hash
  · rw [subPart_mark hmarked]
    exact .node <| (take_glued c).cons <| (touchingName_sticks _).cons (touchingMark_sticks _)
  by_cases hstar : c.kind = .asterisk
  · rw [subPart_asterisk hstar]
    exact .node <| .skip <| (take_glued c).cons (touchingMark_sticks _)
  · obtain ⟨hperiod, hhash⟩ := not_or.mp hmarked
    rw [subPart_name hperiod hhash hstar hcolon]
    exact .node <| .skip <| (expectName_glued c).cons (touchingMark_sticks _)

theorem selectorPart_glued (c : Cursor) :
    Glued c [some (selectorPart c).value] (selectorPart c).rest := by
  have hstep (c : Cursor) (d : Draft) (hd : (partStep c).value = some d) :
      Sticks c [some d] (partStep c).rest := by
    rw [← hd]
    exact @optional_sticks (fun c => c.touching && partMarks.contains c.kind) _
      subPart_glued (fun _ h => (Bool.and_eq_true_iff.mp h).1) c
  have hmore := many_row .nil .append partStep_steps hstep (subPart c).rest
  have hrow : Glued c (((subPart c).value :: (many partStep (subPart c).rest).value).map some)
      (many partStep (subPart c).rest).rest := (subPart_glued c).cons hmore
  rw [selectorPart_apply]
  apply Glued.node
  constructor
  · rw [lexemesOf_list]
    exact hrow.passes
  · rw [lexemesOf_list]
    exact hrow.touch

end Production

/-! ## Tokens of parts -/

/-- The first present token has the trivia in front of the first lexeme. -/
theorem Piece.leading_of_head? {ps : List Piece} {t : Token}
    (h : ((ps.map token).filter Token.isPresent).head? = some t) :
    ∃ m, (ps.flatMap lexemes).head? = some m ∧ t.leading = m.leading.map Gap.trivia := by
  induction ps with
  | nil => cases h
  | cons p ps ih =>
    cases p with
    | missing kind => exact ih h
    | run kind first more =>
      cases h
      exact ⟨first, rfl, rfl⟩

theorem Lexeme.touches_iff {l m : Lexeme} : l.touches m ↔ l.trailing = [] ∧ m.leading = [] := by
  simp [touches]

/-- The tokens of lexemes that touch are snug. -/
theorem Piece.snug_of_touch {ps : List Piece}
    (h : (ps.flatMap lexemes).IsChain fun l m => l.touches m) : Token.Snug (ps.map token) := by
  unfold Token.Snug
  induction ps with
  | nil => exact .nil
  | cons p ps ih =>
    rw [List.flatMap_cons, List.isChain_append] at h
    obtain ⟨-, hps, hborder⟩ := h
    cases p with
    | missing kind => exact ih hps
    | run kind first more =>
      rw [List.map_cons, List.filter_cons_of_pos (by rfl), List.isChain_cons]
      refine ⟨?_, ih hps⟩
      intro t ht
      obtain ⟨m, hm, hleading⟩ := Piece.leading_of_head? ht
      have htouches := hborder (lastOf first more) (getLast?_run first more) m hm
      obtain ⟨htrailing, hnone⟩ := Lexeme.touches_iff.mp htouches
      refine ⟨?_, by rw [hleading, hnone]; rfl⟩
      show (lastOf first more).trailing.map Gap.trivia = []
      rw [htrailing]
      rfl

/-- In a parse, no trivia stands within a part of a selector. -/
theorem snug_parts (text : Text) : (parse text).tree.slots.Everywhere fun kind slots =>
    kind = .selectorPart → Token.Snug slots.tokens := by
  apply everywhere_of_made
  rintro c kind slots hmade hkind
  subst hkind
  rcases hmade with hlist | ⟨p, hp, hvalue⟩
  · cases hlist
  · cases hp
    have hglued := (Production.selectorPart_glued c).touch
    rw [hvalue] at hglued
    rw [Slots.tokens_map]
    exact Piece.snug_of_touch (by simpa [lexemes, Tree.tokens] using hglued)

end Stylesheet
