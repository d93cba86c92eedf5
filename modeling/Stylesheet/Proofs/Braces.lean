import Stylesheet.Proofs.Braces.Matching
import Stylesheet.Proofs.Checks

/-!
# Braces of drafts

Productions keep to the matching of braces. What they read between two cursors is `Balanced`: all
nodes in braces below it are closed by the brace that matches the opening one, and no brace is read
that closes a group opened before. Where no group is open an error may read such a brace; what is
read is then `Matched` only.

Both hold if no plain value runs over an opening brace: such a value ends at the next closing brace
all the same.

Results:
* `Balanced.append`, `Balanced.node`, `Balanced.list`: what is built of balanced rows is balanced.
* `Balanced.braced`, `Balanced.bare`: a node in braces, from what it holds.
* `Outcome.Puts.balanced`: a token that is no brace and no value.
-/
namespace Stylesheet

/-! ## Nodes with what stands behind them -/

mutual

/-- Whether each node of a draft has a property of its kind, its slots and the lexemes behind it,
those behind the draft being `after`. -/
def Tree.EverywhereBefore (P : Kind → Slots Kind Piece → List Lexeme → Prop)
    (after : List Lexeme) : Tree Kind Piece → Prop
  | .token _ => True
  | .node kind slots => P kind slots after ∧ slots.EverywhereBefore P after

def Slots.EverywhereBefore (P : Kind → Slots Kind Piece → List Lexeme → Prop)
    (after : List Lexeme) : Slots Kind Piece → Prop
  | .nil => True
  | .empty rest => rest.EverywhereBefore P after
  | .filled d rest =>
    d.EverywhereBefore P (rest.tokens.flatMap Piece.lexemes ++ after)
      ∧ rest.EverywhereBefore P after

end

theorem Slots.everywhereBefore_append {P : Kind → Slots Kind Piece → List Lexeme → Prop}
    {after : List Lexeme} (a b : List (Option Draft)) :
    (ofList (a ++ b)).EverywhereBefore P after
      ↔ (ofList a).EverywhereBefore P (Draft.lexemesOf b ++ after)
        ∧ (ofList b).EverywhereBefore P after := by
  induction a with
  | nil => simp [ofList, EverywhereBefore]
  | cons s rest ih =>
    cases s with
    | none => exact ih
    | some d =>
      simp only [List.cons_append, ofList, EverywhereBefore, ih, Draft.tokens_ofList,
        ← Draft.lexemesOf_eq, Draft.lexemesOf_append, List.append_assoc, and_assoc]

/-! ## Nodes in braces -/

namespace Draft

theorem lexemes_token (p : Piece) : lexemes (Tree.token p) = p.lexemes := by
  simp [lexemes, Tree.tokens]

/-- What ends a node in braces, the lexemes `after` behind it: a closing brace, or the end of the
text for want of one. -/
inductive Closing (after : List Lexeme) : Piece → Prop
  | found (r : Lexeme) (h : r.kind = .rightBrace) : Closing after (.run .rightBrace r [])
  | lost (h : after = []) : Closing after (.missing .rightBrace)

/-- The slots of a node in braces, the lexemes `after` behind it. Behind an opening brace the
content ends at the first closing brace that is one too many. -/
inductive Enclosed (after : List Lexeme) : List (Option Draft) → Prop
  | bare (content : Option Draft) :
      Enclosed after [some (missing .leftBrace), content, some (missing .rightBrace)]
  | braced {l : Lexeme} {content : Option Draft} {closing : Piece} (hl : l.kind = .leftBrace)
      (hclosing : Closing after closing)
      (hcontent : (lexemesOf [content]).length
        = Run.bracedLength 0 (lexemesOf [content] ++ closing.lexemes ++ after)) :
      Enclosed after [some (single .leftBrace l), content, some (.token closing)]

/-- Nodes in braces are enclosed; a value among them has a value's token for its content. -/
structure Braced (kind : Kind) (slots : Slots Kind Piece) (after : List Lexeme) : Prop where
  enclosed : kind = .block ∨ kind = .propertyValueWithBraces → Enclosed after slots.toList
  content : kind = .propertyValueWithBraces →
    ∃ p, slots.toList[1]? = some (some (.token p)) ∧ p.kind = .propertyValueToken

/-- A plain value has no opening brace in it. -/
def Plain (kind : Kind) (slots : Slots Kind Piece) : Prop :=
  kind = .propertyValue → ∀ p ∈ slots.tokens, ∀ l ∈ p.lexemes, l.kind ≠ .leftBrace

end Draft

/-! ## Balanced rows -/

open Draft

/-- Under this the braces below some slots match as the text does, read from a cursor on. -/
structure Calm (c : Cursor) (slots : List (Option Draft)) : Prop where
  /-- The end of the text is where no lexeme is ahead. -/
  final : ∀ l ∈ c.ahead, l.kind ≠ .eof
  plain : (Slots.ofList slots).Everywhere Plain

/-- Slots that were filled between two cursors, with nodes in braces that keep to the matching. -/
structure Matched (c : Cursor) (slots : List (Option Draft)) (c' : Cursor) : Prop where
  passes : c.Passes (lexemesOf slots) c'
  nodes : Calm c slots → (Slots.ofList slots).EverywhereBefore Braced c'.ahead

/-- Besides, no brace was read that closes a group opened before, and no group is left open. -/
structure Balanced (c : Cursor) (slots : List (Option Draft)) (c' : Cursor) : Prop
    extends Matched c slots c' where
  level : Calm c slots → Run.outside 0 c'.ahead = Run.outside 0 c.ahead

variable {c c₁ c₂ c' : Cursor} {slots a b : List (Option Draft)} {kind : Kind}

namespace Calm

theorem left (h : Calm c (a ++ b)) : Calm c a :=
  ⟨h.final, ((Slots.everywhere_append ..).mp h.plain).1⟩

theorem right {ls : List Lexeme} (h : Calm c (a ++ b)) (hp : c.Passes ls c₁) : Calm c₁ b :=
  ⟨fun l hl => h.final l (hp.ahead ▸ List.mem_append_right _ hl),
    ((Slots.everywhere_append ..).mp h.plain).2⟩

theorem inner (h : Calm c [some (composite kind slots)]) : Calm c slots := ⟨h.final, h.plain.1.2⟩

end Calm

namespace Matched

theorem nil (c : Cursor) : Matched c [] c := ⟨.refl c, fun _ => trivial⟩

theorem append (h₁ : Matched c a c₁) (h₂ : Matched c₁ b c₂) : Matched c (a ++ b) c₂ := by
  refine ⟨?_, fun hc => (Slots.everywhereBefore_append a b).mpr ⟨?_, ?_⟩⟩
  · rw [lexemesOf_append]
    exact h₁.passes.trans h₂.passes
  · rw [← h₂.passes.ahead]
    exact h₁.nodes hc.left
  · exact h₂.nodes (hc.right h₁.passes)

theorem token {p : Piece} (hp : c.Passes p.lexemes c') : Matched c [some (.token p)] c' :=
  ⟨by simpa [Draft.lexemes_token] using hp, fun _ => ⟨trivial, trivial⟩⟩

theorem composite (h : Matched c slots c')
    (hb : Calm c slots → Braced kind (Slots.ofList slots) c'.ahead) :
    Matched c [some (.composite kind slots)] c' :=
  ⟨by simpa using h.passes, fun hc => ⟨⟨hb hc.inner, h.nodes hc.inner⟩, trivial⟩⟩

/-- A node that is in no braces. -/
theorem node (hk : kind ≠ .block ∧ kind ≠ .propertyValueWithBraces) (h : Matched c slots c') :
    Matched c [some (.composite kind slots)] c' :=
  h.composite fun _ => ⟨fun hn => (hn.elim hk.1 hk.2).elim, fun hn => (hk.2 hn).elim⟩

theorem list {items : List Draft} (h : Matched c (items.map some) c') :
    Matched c [Draft.list items] c' := by
  cases items with
  | nil =>
    obtain rfl := h.passes.stand
    exact ⟨.refl c', fun _ => trivial⟩
  | cons d rest => exact h.node (by decide)

end Matched

namespace Balanced

theorem nil (c : Cursor) : Balanced c [] c := ⟨.nil c, fun _ => rfl⟩

theorem append (h₁ : Balanced c a c₁) (h₂ : Balanced c₁ b c₂) : Balanced c (a ++ b) c₂ :=
  ⟨h₁.toMatched.append h₂.toMatched, fun hc =>
    (h₂.level (hc.right h₁.passes)).trans (h₁.level hc.left)⟩

/-- One slot more, in front of a row. -/
theorem cons {slot : Option Draft} (h₁ : Balanced c [slot] c₁) (h₂ : Balanced c₁ slots c₂) :
    Balanced c (slot :: slots) c₂ :=
  h₁.append h₂

/-- A node that is in no braces. -/
theorem node (hk : kind ≠ .block ∧ kind ≠ .propertyValueWithBraces) (h : Balanced c slots c') :
    Balanced c [some (composite kind slots)] c' :=
  ⟨h.toMatched.node hk, fun hc => h.level hc.inner⟩

/-- A slot that is left empty. -/
theorem empty (c : Cursor) : Balanced c [none] c := ⟨⟨.refl c, fun _ => trivial⟩, fun _ => rfl⟩

theorem missing (kind : Kind) (c : Cursor) : Balanced c [some (.missing kind)] c :=
  ⟨.token (.refl c), fun _ => rfl⟩

/-- A token that is made of no braces. -/
theorem run {first : Lexeme} {more : List Lexeme} (hp : c.Passes (first :: more) c')
    (h : ∀ l ∈ first :: more, l.isBrace = false) :
    Balanced c [some (.token (.run kind first more))] c' := by
  refine ⟨.token hp, fun _ => ?_⟩
  rw [hp.ahead, Run.outside_append h]

/-- A plain value, that no closing brace is part of. -/
theorem value {p : Piece} (hp : c.Passes p.lexemes c')
    (h : ∀ l ∈ p.lexemes, l.kind ≠ .rightBrace) :
    Balanced c [some (composite .propertyValue [some (.token p)])] c' := by
  refine ⟨.node (by decide) (.token hp), ?_⟩
  intro hc
  have hopening : ∀ l ∈ p.lexemes, l.kind ≠ .leftBrace :=
    hc.plain.1.1 rfl p (List.mem_singleton_self p)
  have hnone : ∀ l ∈ p.lexemes, l.isBrace = false := fun l hl =>
    Lexeme.isBrace_eq_false_iff.mpr ⟨hopening l hl, h l hl⟩
  rw [hp.ahead, Run.outside_append hnone]

theorem list {items : List Draft} (h : Balanced c (items.map some) c') :
    Balanced c [Draft.list items] c' := by
  refine ⟨h.toMatched.list, ?_⟩
  cases items with
  | nil =>
    obtain rfl := h.passes.stand
    exact fun _ => rfl
  | cons d rest => exact (h.node (by decide)).level

end Balanced

/-- What a production reads is balanced. -/
def Outcome.Balances {α : Type} (o : Outcome α) (c : Cursor) (slots : List (Option Draft)) : Prop :=
  Balanced c slots o.rest

namespace Outcome.Balances

variable {α β : Type} {o : Outcome α} {o₂ : Outcome β} {slot : Option Draft}

/-- No slot, and nothing read. -/
theorem done (v : α) (c : Cursor) : Outcome.Balances ⟨v, c, [], []⟩ c [] := .nil c

/-- One slot more, in front of a row. -/
theorem cons (h₁ : o.Balances c [slot]) (h₂ : o₂.Balances o.rest slots) {v : β} :
    Outcome.Balances ⟨v, o₂.rest, o.reports ++ o₂.reports, o.faults ++ o₂.faults⟩ c
      (slot :: slots) :=
  Balanced.cons h₁ h₂

/-- A slot that stays empty in front of a row. -/
theorem skip (h : o.Balances c slots) : o.Balances c (none :: slots) := Balanced.cons (.empty c) h

/-- A look reads nothing. -/
theorem seen {view : Cursor → α} {f : α → Production β} (h : (f (view c) c).Balances c slots) :
    ((Production.look view >>= f) c).Balances c slots :=
  h

/-- A node of a row that is in no braces. -/
theorem node (h : o.Balances c slots) (hk : kind ≠ .block ∧ kind ≠ .propertyValueWithBraces) :
    o.Balances c [some (composite kind slots)] :=
  Balanced.node hk h

end Outcome.Balances

/-! ## Tokens -/

/-- Kinds of the tokens inside a text that no brace is part of. -/
def Kind.isUnbraced (kind : Kind) : Bool :=
  kind.isToken && kind ∉ [Kind.leftBrace, .rightBrace, .propertyValueToken, .eof]

namespace Kind

theorem isUnbraced_iff {kind : Kind} : kind.isUnbraced ↔ kind.isToken ∧ kind ≠ .leftBrace ∧
    kind ≠ .rightBrace ∧ kind ≠ .propertyValueToken ∧ kind ≠ .eof := by
  simp [isUnbraced]

theorem isUnbraced_of_isKeyword {kind : Kind} (h : kind.isKeyword) : kind.isUnbraced := by
  revert h
  cases kind <;> decide

end Kind

theorem Lexeme.isBrace_of_isUnbraced {l : Lexeme} (h : l.kind.isUnbraced) : l.isBrace = false := by
  obtain ⟨-, hl, hr, -⟩ := Kind.isUnbraced_iff.mp h
  exact isBrace_eq_false_iff.mpr ⟨hl, hr⟩

theorem Piece.Takes.isBrace {kind : Kind} {first : Lexeme} {more : List Lexeme}
    (h : Takes kind first more) (hk : kind.isUnbraced) : ∀ l ∈ first :: more, l.isBrace = false := by
  cases h with
  | same l => simpa using Lexeme.isBrace_of_isUnbraced hk
  | name h => simpa using Lexeme.isBrace_of_isUnbraced (Kind.isUnbraced_of_isKeyword h)
  | value => simp [Kind.isUnbraced] at hk
  | important hm hw => simp [Lexeme.isBrace, hm, hw]

/-- What is filled with a token that no brace is part of, or left empty, is balanced. -/
theorem Outcome.Puts.balanced {α : Type} {o : Outcome α} {role : SlotRole} {slot : Option Draft}
    {rule : SlotRule} (h : o.Puts c role slot rule) (hk : ∀ k ∈ rule.kinds, k.isUnbraced) :
    o.Balances c [slot] := by
  have hpasses : c.Passes (lexemesOf [slot]) o.rest := h.reading.passes
  match slot with
  | none =>
    rw [Outcome.Balances, show o.rest = c from hpasses.stand]
    exact .empty c
  | some (.token (.missing kind)) =>
    rw [Outcome.Balances, show o.rest = c from hpasses.stand]
    exact .missing kind c
  | some (.token (.run kind first more)) =>
    have hholds : (Piece.run kind first more).Holds := h.reading.holds _ (List.mem_singleton_self _)
    exact Balanced.run (by simpa using hpasses) (hholds.isBrace (hk kind h.allowed.1))
  | some (.node kind slots) =>
    -- A reading makes nodes of composite kinds only.
    have hcomposite : kind.isComposite :=
      (h.reading.everywhere (P := fun kind _ => kind.isComposite) (fun _ _ hk _ _ => hk)
        (fun _ _ => rfl) (fun _ _ => rfl)).1.1
    rw [Kind.isComposite_of_isToken (Kind.isUnbraced_iff.mp (hk kind h.allowed.1)).1] at hcomposite
    cases hcomposite

/-! ## Braces around something -/

/-- Where a group ends, its closing brace is read, or is missing at the end of the text. -/
theorem expect_closing (c : Cursor) :
    ∃ p, (Production.expect .rightBrace c).value = .token p ∧
      c.Passes p.lexemes (Production.expect .rightBrace c).rest ∧
      ∀ ls, c.ahead = Run.outside 0 ls →
        Closing (Production.expect .rightBrace c).rest.ahead p ∧
          (Production.expect .rightBrace c).rest.ahead = c.ahead.tail := by
  by_cases hkind : c.kind = .rightBrace
  · obtain ⟨r, rest, hahead, hr⟩ := Cursor.exists_ahead (c := c) (by simp [hkind])
    have hpass := Cursor.passes_one hahead
    rw [Production.expect_of_kind hkind, Production.take_apply hahead, hr, hkind]
    refine ⟨.run .rightBrace r [], rfl, hpass, fun ls _ => ⟨.found r (hr.trans hkind), ?_⟩⟩
    rw [hpass.ahead]
    rfl
  · rw [Production.expect_of_ne hkind]
    refine ⟨.missing .rightBrace, rfl, .refl c, fun ls h => ?_⟩
    rcases Run.outside_eq 0 ls with hnil | ⟨r, rest, hcons, hr⟩
    · have hahead : c.ahead = [] := h.trans hnil
      refine ⟨.lost hahead, ?_⟩
      rw [hahead]
      exact hahead
    · have hpass := Cursor.passes_one (h.trans hcons)
      exact absurd (hpass.kind_eq.trans hr) hkind

/-- Braces around something that is matched, up to where the group ends. -/
theorem Balanced.braced {l : Lexeme} {content : Option Draft}
    (htoken : kind = .propertyValueWithBraces →
      ∃ p, content = some (.token p) ∧ p.kind = .propertyValueToken)
    (hl : l.kind = .leftBrace) (hopen : c.Passes [l] c₁) (hcontent : Matched c₁ [content] c₂)
    (hend : Calm c₁ [content] → c₂.ahead = Run.outside 0 c₁.ahead) :
    Balanced c [some (composite kind [some (.single .leftBrace l), content,
      some (Production.expect .rightBrace c₂).value])] (Production.expect .rightBrace c₂).rest := by
  obtain ⟨closing, hvalue, hpass, hclosing⟩ := expect_closing c₂
  rw [hvalue]
  have hopening : Matched c [some (.single .leftBrace l)] c₁ := .token hopen
  have hrow := hopening.append (hcontent.append (.token hpass))
  have hcalm (hc : Calm c [some (.single .leftBrace l), content, some (.token closing)]) :
      Calm c₁ [content] :=
    (hc.right (a := [_]) (b := [_, _]) hopen).left (b := [_])
  refine ⟨hrow.composite fun hc => ⟨fun _ => ?_, fun hn => ?_⟩, fun hc => ?_⟩
  · -- The group behind the opening brace is as long as the content.
    have hlist : lexemesOf [content] ++ closing.lexemes
        ++ (Production.expect .rightBrace c₂).rest.ahead = c₁.ahead := by
      rw [hcontent.passes.ahead, hpass.ahead, List.append_assoc]
    have hall := congrArg List.length hcontent.passes.ahead
    have hbehind := congrArg List.length (hend (hcalm hc))
    have hle := Production.bracedLength_le 0 c₁.ahead
    rw [List.length_append] at hall
    rw [Run.outside, List.length_drop] at hbehind
    rw [Slots.toList_ofList]
    refine .braced hl (hclosing _ (hend (hcalm hc))).1 ?_
    rw [hlist]
    omega
  · obtain ⟨p, rfl, hp⟩ := htoken hn
    exact ⟨p, rfl, hp⟩
  · have hend := hend (hcalm hc.inner)
    rw [(hclosing _ hend).2, hend, Run.outside_outside, hopen.ahead]
    exact (Run.outside_opening hl).symm

/-- Braces that are both missing, and nothing read. -/
theorem Balanced.bare {content : Option Draft}
    (htoken : kind = .propertyValueWithBraces →
      ∃ p, content = some (.token p) ∧ p.kind = .propertyValueToken)
    (hcontent : Balanced c [content] c) :
    Balanced c [some (composite kind [some (.missing .leftBrace), content,
      some (.missing .rightBrace)])] c := by
  have hrow := (Balanced.missing .leftBrace c).cons (hcontent.cons (.missing .rightBrace c))
  refine ⟨hrow.composite fun _ => ⟨fun _ => ?_, fun hn => ?_⟩, fun hc => hrow.level hc.inner⟩
  · rw [Slots.toList_ofList]
    exact .bare content
  · obtain ⟨p, rfl, hp⟩ := htoken hn
    exact ⟨p, rfl, hp⟩

end Stylesheet
