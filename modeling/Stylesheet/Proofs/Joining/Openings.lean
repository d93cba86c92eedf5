import Stylesheet.Proofs.Reading.Sheets

/-!
# What items open with

An item of a style sheet is entered at a lexeme that it can start with, so its first token is never
one that the text lacks. Trivia in front of an item therefore has a token to belong to.

Results:
* `Draft.Opens`: the first token is present.
* `Production.item_opens`: all items of a style sheet open with a token that is present.
-/
namespace Stylesheet

/-- Pieces of which the first one is made of lexemes. -/
def Piece.Open (ps : List Piece) : Prop := ∃ kind first more rest, ps = .run kind first more :: rest

theorem Piece.Open.append {ps : List Piece} (h : Open ps) (qs : List Piece) : Open (ps ++ qs) := by
  obtain ⟨kind, first, more, rest, rfl⟩ := h
  exact ⟨kind, first, more, rest ++ qs, rfl⟩

namespace Draft

/-- The first token of a draft is present. -/
def Opens (d : Draft) : Prop := Piece.Open d.tokens

theorem opens_single (kind : Kind) (l : Lexeme) : (single kind l).Opens := ⟨kind, l, [], [], rfl⟩

theorem Opens.composite {d : Draft} (h : d.Opens) (kind : Kind) (rest : List (Option Draft)) :
    (composite kind (some d :: rest)).Opens := by
  unfold Opens
  rw [tokens_composite, piecesOf_some]
  exact Piece.Open.append h _

theorem Opens.composite_skip {d : Draft} (h : d.Opens) (kind : Kind) (rest : List (Option Draft)) :
    (Draft.composite kind (none :: some d :: rest)).Opens := by
  unfold Opens
  rw [tokens_composite, piecesOf_none, piecesOf_some]
  exact Piece.Open.append h _

/-- A list opens as its first item does. -/
theorem Opens.composite_list {items : List Draft} {d : Draft} (h : d.Opens)
    (hd : items.head? = some d) (kind : Kind) (rest : List (Option Draft)) :
    (Draft.composite kind (Draft.list items :: rest)).Opens := by
  obtain ⟨more, rfl⟩ := List.head?_eq_some_iff.mp hd
  exact (h.composite .list (more.map some)).composite kind rest

end Draft

namespace Production

variable {c : Cursor}

/-! ## Pieces -/

theorem take_opens (h : c.kind ≠ .eof) : (take c).value.Opens := by
  obtain ⟨l, rest, hc, -⟩ := Cursor.exists_ahead h
  rw [take_apply hc]
  exact Draft.opens_single ..

theorem expect_opens {kind : Kind} (h : c.kind = kind) (he : kind ≠ .eof) :
    (expect kind c).value.Opens := by
  rw [expect_of_kind h]
  exact take_opens (h ▸ he)

theorem expectName_opens (h : c.kind.isName) : (expectName c).value.Opens := by
  obtain ⟨l, rest, hc, -⟩ := Cursor.exists_ahead (ne_eof_of_isName h)
  rw [expectName_of_isName h, takeAs_apply .identifier hc]
  exact Draft.opens_single ..

theorem head?_many {α : Type} {step : Production (Option α)} {a : α} (h : (step c).value = some a) :
    (many step c).value.head? = some a := by
  rw [many, h]
  simp only
  split <;> rfl

/-! ## Selectors -/

theorem subPart_opens (h : partStarts.contains c.kind) : (subPart c).value.Opens := by
  by_cases hcolon : c.kind = .colon
  · rw [subPart_colon hcolon]
    exact (take_opens (by simp [hcolon])).composite _ _
  by_cases hmarked : c.kind = .period ∨ c.kind = .hash
  · rw [subPart_mark hmarked]
    exact (take_opens (by rcases hmarked with h | h <;> simp [h])).composite _ _
  by_cases hstar : c.kind = .asterisk
  · rw [subPart_asterisk hstar]
    exact (take_opens (by simp [hstar])).composite_skip _ _
  · have hn : c.kind.isName := by simpa [contains_partStarts, hcolon, hstar, not_or.mp hmarked] using h
    obtain ⟨hperiod, hhash⟩ := not_or.mp hmarked
    rw [subPart_name hperiod hhash hstar hcolon]
    exact (expectName_opens hn).composite_skip _ _

theorem selectorPart_opens (h : partStarts.contains c.kind) : (selectorPart c).value.Opens := by
  rw [selectorPart_apply]
  exact (subPart_opens h).composite_list rfl _ _

theorem selector_opens (h : partStarts.contains c.kind) : (selector c).value.Opens := by
  have hvalue : (componentStep c).value = some (selectorPart c).value := by
    rw [componentStep_of_partStarts h, map_apply]
  rw [selector_apply]
  exact (selectorPart_opens h).composite_list (head?_many hvalue) _ _

theorem navigatedSelector_opens (h : partStarts.contains c.kind) :
    (navigatedSelector c).value.Opens :=
  (selector_opens h).composite _ _

/-- A separated list that starts with an item has it in front. -/
theorem head?_separated {listed : Listed} {starts : Cursor → Bool} {item : Production Draft}
    (hitem : ∀ c, starts c → Item item .plain c) (hs : starts c) :
    (separated listed starts item c).value.head? = some (item c).value := by
  have hsep : Separated listed starts item c _ :=
    separated_separated (fun c h => (hitem c h).reads) c
  generalize separated listed starts item c = o at hsep
  cases hsep with
  | nothing hn => simp [hn] at hs
  | last | trailing | next | gap => rfl

/-! ## Items -/

theorem ruleSet_opens (h : partStarts.contains c.kind) : (ruleSet c).value.Opens :=
  (navigatedSelector_opens h).composite_list (head?_separated (fun _ => navigatedSelector_item) h) _ _

theorem misplacedTrigger_opens (h : c.kind = .triggerKeyword) :
    (misplacedTrigger c).value.Opens := by
  obtain ⟨kind, -, rest, hvalue, -⟩ := trigger_row c
  rw [show (misplacedTrigger c).value = (trigger c).value from rfl, hvalue]
  exact (expect_opens h (by decide)).composite _ _

theorem unexpected_opens {starts : KindSet} (h : c.kind ≠ .eof) :
    (unexpected starts c).value.Opens := by
  obtain ⟨l, more, count, -, hx⟩ := unexpected_apply starts h
  rw [hx]
  exact (Draft.opens_single l.kind l).composite _ _

/-- Items open with a token that is present. -/
theorem item_opens (h : c.kind ≠ .eof) : (item c).value.Opens := by
  by_cases ht : c.kind = .triggerKeyword
  · rw [item_trigger ht]
    exact misplacedTrigger_opens ht
  by_cases ha : c.kind = .atSign
  · rw [item_storyboard ha]
    exact (expect_opens ha (by decide)).composite _ _
  rw [item_other ht ha]
  by_cases hp : partStarts.contains c.kind
  · rw [if_pos hp]
    exact ruleSet_opens hp
  · rw [if_neg hp]
    exact unexpected_opens h

/-- So does the list of items of a style sheet, if there are any. -/
theorem many_documentStep_opens (c : Cursor) :
    ∀ d ∈ (many documentStep c).value.head?, d.Opens := by
  intro d hd
  cases hstep : (documentStep c).value with
  | none =>
    rw [many_of_none hstep] at hd
    cases hd
  | some e =>
    rw [head?_many hstep] at hd
    cases hd
    rw [documentStep_apply] at hstep
    split at hstep
    · cases hstep
    · next he =>
      rw [map_apply] at hstep
      cases hstep
      exact item_opens he

end Production

end Stylesheet
