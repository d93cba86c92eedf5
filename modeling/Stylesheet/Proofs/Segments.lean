import Stylesheet.Proofs.Regions.Parts
import Stylesheet.Proofs.Standing

/-!
# How selectors fall into parts

What belongs together in a selector is told by what touches, and by nothing else.

* A part is a row of lexemes that touch. Its first sub-part may start with a name or an asterisk;
  all others start with a period, a hash or a colon.
* The name behind such a mark is there iff a name touches the mark, and so is an exclamation mark
  behind what stands before it.
* A part that touches the part in front of it starts with a name or an asterisk: anything else
  would have gone on with that part.
* A selector ends where neither a part nor a combinator follows.

Results:
* `Lexemes.IsSubPart`, `Lexemes.IsPart`, `Lexemes.IsSelector`: the rule, by the lexemes of a text.
* `selectors_segmented`: all selectors of all texts fall into parts in this way.
-/
namespace Stylesheet

namespace Lexemes

variable (ls : Lexemes)

/-- Whether the lexeme at an index is a name that touches the lexeme before it. -/
def IsTouchingName (i : Nat) : Prop :=
  Lexeme.touchesAt ls.all i ∧ (Lexeme.kindAt ls.all i).isName

/-- The exclamation mark that touches the lexeme at an index, if one does. -/
def markBehind (i : Nat) : Option (Tree Kind Mark) :=
  if Lexeme.touchesAt ls.all (i + 1) ∧ Lexeme.kindAt ls.all (i + 1) = .exclamationMark then
    some (.token (.run .exclamationMark (i + 1) 0))
  else none

/-- A sub-part or a pseudo-class whose first lexeme is the one at an index. -/
inductive IsSubPart (i : Nat) : Tree Kind Mark → Prop
  | name (h : (Lexeme.kindAt ls.all i).isName) :
      IsSubPart i (.node .selectorSubPart
        (.ofList [none, some (.token (.run .identifier i 0)), ls.markBehind i]))
  | asterisk (h : Lexeme.kindAt ls.all i = .asterisk) :
      IsSubPart i (.node .selectorSubPart
        (.ofList [none, some (.token (.run .asterisk i 0)), ls.markBehind i]))
  | qualified (h : Lexeme.kindAt ls.all i = .period ∨ Lexeme.kindAt ls.all i = .hash)
      (hn : ls.IsTouchingName (i + 1)) :
      IsSubPart i (.node .selectorSubPart
        (.ofList [some (.token (.run (Lexeme.kindAt ls.all i) i 0)),
          some (.token (.run .identifier (i + 1) 0)), ls.markBehind (i + 1)]))
  | nameless (h : Lexeme.kindAt ls.all i = .period ∨ Lexeme.kindAt ls.all i = .hash)
      (hn : ¬ls.IsTouchingName (i + 1)) :
      IsSubPart i (.node .selectorSubPart
        (.ofList [some (.token (.run (Lexeme.kindAt ls.all i) i 0)),
          some (.token (.missing .identifier)), ls.markBehind i]))
  | pseudoClass (h : Lexeme.kindAt ls.all i = .colon) (hn : ls.IsTouchingName (i + 1)) :
      IsSubPart i (.node .pseudoClass
        (.ofList [some (.token (.run .colon i 0)), some (.token (.run .identifier (i + 1) 0))]))
  | namelessPseudoClass (h : Lexeme.kindAt ls.all i = .colon)
      (hn : ¬ls.IsTouchingName (i + 1)) :
      IsSubPart i (.node .pseudoClass
        (.ofList [some (.token (.run .colon i 0)), some (.token (.missing .identifier))]))

/-- The slots of a part whose first lexeme is the one at an index. -/
structure IsPart (i : Nat) (part : Slots Kind Mark) : Prop where
  /-- What goes on with a part starts with a period, a hash or a colon. -/
  items : ∃ first more, part.itemsIn 0 = first :: more ∧ ls.IsSubPart i first ∧
    ∀ t ∈ more, ∃ j, Production.partMarks.contains (Lexeme.kindAt ls.all j) ∧ ls.IsSubPart j t
  /-- Each lexeme but the first touches the one before it. -/
  touches : ∀ j ∈ (part.tokens.flatMap Mark.indices).tail, Lexeme.touchesAt ls.all j

/-- Whether one component of a selector may follow another. A part that touches the part in front
of it starts with a name or an asterisk. -/
def MayFollow : Tree Kind Mark → Tree Kind Mark → Prop
  | .node .selectorPart _, .node .selectorPart later =>
    ∃ i, ls.IsPart i later ∧ (Lexeme.touchesAt ls.all i →
      Lexeme.kindAt ls.all i = .asterisk ∨ (Lexeme.kindAt ls.all i).isName)
  | _, _ => True

/-- The slots of a selector that starts at an index. -/
structure IsSelector (index : Nat) (slots : Slots Kind Mark) : Prop where
  parts : ∀ part, .node .selectorPart part ∈ slots.itemsIn 0 → ∃ i, ls.IsPart i part
  borders : (slots.itemsIn 0).IsChain ls.MayFollow
  /-- What stands behind a selector neither combines parts nor starts one. -/
  stops : ¬Production.combinators.contains (ls.kindBehind index slots) ∧
    ¬Production.partStarts.contains (ls.kindBehind index slots)

end Lexemes

namespace Production

open Lexemes

variable {ls : Lexemes} {i : Nat}

/-! ## Sub-parts -/

theorem touchingName_present (hf : ls.final.kind = .eof) (h : ls.IsTouchingName i) :
    (touchingName (ls.cursor i)).Lays ls i [some (touchingName (ls.cursor i)).value]
      [some (.token (.run .identifier i 0))] (i + 1) := by
  have hsees : ((ls.cursor i).touching && nameStarts.contains (ls.cursor i).kind) = true := by
    rw [touching_and_cursor hf i (contains_nameStarts _), contains_nameStarts, Bool.and_eq_true]
    exact h
  have hx : touchingName (ls.cursor i) = takeAs .identifier (ls.cursor i) := by
    rw [touchingName, Parsing.touchingName, holds_first, hsees, if_pos rfl, takeAs_eq]
  rw [hx]
  exact takeAs_lays hf _ (ne_eof_of_isName h.2)

theorem touchingName_absent (hf : ls.final.kind = .eof) (h : ¬ls.IsTouchingName i) :
    (touchingName (ls.cursor i)).Lays ls i [some (touchingName (ls.cursor i)).value]
      [some (.token (.missing .identifier))] i := by
  have hsees : ((ls.cursor i).touching && nameStarts.contains (ls.cursor i).kind) = false := by
    rw [touching_and_cursor hf i (contains_nameStarts _), contains_nameStarts,
      ← Bool.not_eq_true, Bool.and_eq_true]
    exact h
  have hx : touchingName (ls.cursor i) = absent .identifier (ls.cursor i) := by
    rw [touchingName, Parsing.touchingName, holds_first, hsees, if_neg Bool.false_ne_true, absent_eq]
  rw [hx]
  exact absent_lays _

theorem touchingMark_lays (hf : ls.final.kind = .eof) (i : Nat) :
    ∃ j, (touchingMark (ls.cursor (i + 1))).Lays ls (i + 1)
      [(touchingMark (ls.cursor (i + 1))).value] [ls.markBehind i] j := by
  have hx : touchingMark (ls.cursor (i + 1))
      = optional (Lexeme.touchesAt ls.all (i + 1) &&
          decide (Lexeme.kindAt ls.all (i + 1) = .exclamationMark)) take (ls.cursor (i + 1)) := by
    rw [← touching_and_cursor hf (i + 1) (p := fun k => decide (k = .exclamationMark)) rfl]
    rfl
  rw [hx, markBehind]
  by_cases h : Lexeme.touchesAt ls.all (i + 1) ∧
      Lexeme.kindAt ls.all (i + 1) = .exclamationMark
  · rw [if_pos h, h.1, h.2]
    have htake := take_lays hf (i := i + 1) (by rw [h.2]; decide)
    rw [h.2] at htake
    exact ⟨_, ⟨htake.length, htake.marks⟩, htake.rest⟩
  · rw [if_neg h]
    refine ⟨i + 1, ?_⟩
    have hno : (Lexeme.touchesAt ls.all (i + 1) &&
        decide (Lexeme.kindAt ls.all (i + 1) = .exclamationMark)) = false := by
      simpa using h
    rw [hno]
    exact ⟨⟨rfl, rfl⟩, rfl⟩

theorem subPart_marked (hf : ls.final.kind = .eof)
    (h : partStarts.contains (Lexeme.kindAt ls.all i)) :
    ls.IsSubPart i ((subPart (ls.cursor i)).value.shape.marked i) := by
  have hkind := kind_cursor hf i
  have hmark (hk : Lexeme.kindAt ls.all i ≠ .eof) := take_lays hf hk
  by_cases hcolon : Lexeme.kindAt ls.all i = .colon
  · have hmark := hmark (by simp [hcolon])
    rw [hcolon] at hmark
    rw [subPart_colon (hkind.trans hcolon)]
    by_cases hn : ls.IsTouchingName (i + 1)
    · have hname := touchingName_present hf hn
      rw [← hmark.rest] at hname
      exact (hmark.toLaid.cons <| hname.toLaid.cons <| .nil _).node _ ▸ .pseudoClass hcolon hn
    · have hname := touchingName_absent hf hn
      rw [← hmark.rest] at hname
      exact (hmark.toLaid.cons <| hname.toLaid.cons <| .nil _).node _ ▸
        .namelessPseudoClass hcolon hn
  by_cases hmarked : Lexeme.kindAt ls.all i = .period ∨ Lexeme.kindAt ls.all i = .hash
  · have hmark := hmark (by rcases hmarked with h | h <;> simp [h])
    rw [subPart_mark (hkind ▸ hmarked)]
    by_cases hn : ls.IsTouchingName (i + 1)
    · have hname := touchingName_present hf hn
      obtain ⟨j, htrailing⟩ := touchingMark_lays hf (i + 1)
      rw [← hname.rest] at htrailing
      rw [← hmark.rest] at hname htrailing
      exact (hmark.toLaid.cons <| hname.toLaid.cons <| htrailing.toLaid.cons <| .nil _).node _ ▸
        .qualified hmarked hn
    · have hname := touchingName_absent hf hn
      obtain ⟨j, htrailing⟩ := touchingMark_lays hf i
      rw [← hname.rest] at htrailing
      rw [← hmark.rest] at hname htrailing
      exact (hmark.toLaid.cons <| hname.toLaid.cons <| htrailing.toLaid.cons <| .nil _).node _ ▸
        .nameless hmarked hn
  obtain ⟨j, htrailing⟩ := touchingMark_lays hf i
  by_cases hstar : Lexeme.kindAt ls.all i = .asterisk
  · have hmark := hmark (by simp [hstar])
    rw [hstar] at hmark
    rw [← hmark.rest] at htrailing
    rw [subPart_asterisk (hkind.trans hstar)]
    exact (hmark.toLaid.cons <| htrailing.toLaid.cons <| .nil _).skip.node _ ▸ .asterisk hstar
  · obtain ⟨hperiod, hhash⟩ := not_or.mp hmarked
    have hname : (Lexeme.kindAt ls.all i).isName := by
      simpa [contains_partStarts, hcolon, hperiod, hhash, hstar] using h
    have hmark := expectName_lays hf hname
    rw [← hmark.rest] at htrailing
    rw [subPart_name (hkind ▸ hperiod) (hkind ▸ hhash) (hkind ▸ hstar) (hkind ▸ hcolon)]
    exact (hmark.toLaid.cons <| htrailing.toLaid.cons <| .nil _).skip.node _ ▸ .name hname

/-! ## Parts -/

theorem partStep_cursor (hf : ls.final.kind = .eof) (i : Nat) :
    partStep (ls.cursor i)
      = optional (Lexeme.touchesAt ls.all i && partMarks.contains (Lexeme.kindAt ls.all i)) subPart
          (ls.cursor i) := by
  rw [← touching_and_cursor hf i (p := partMarks.contains) (by rw [contains_partMarks]; rfl)]
  rfl

/-- A step of the loop of a part makes a sub-part that starts with a mark, if it makes one. -/
theorem partStep_marked (hf : ls.final.kind = .eof) {d : Draft}
    (h : (partStep (ls.cursor i)).value = some d) :
    ∃ j, partMarks.contains (Lexeme.kindAt ls.all j) ∧ ls.IsSubPart j (d.shape.marked i) := by
  rw [partStep_cursor hf] at h
  cases hsees : Lexeme.touchesAt ls.all i && partMarks.contains (Lexeme.kindAt ls.all i) with
  | false =>
    rw [hsees] at h
    cases h
  | true =>
    rw [hsees, optional_true] at h
    cases h
    have hk := (Bool.and_eq_true_iff.mp hsees).2
    exact ⟨i, hk, subPart_marked hf (partStarts_of_partMarks hk)⟩

/-- Lexemes that were passed and that touch do so in the text. -/
theorem touchesAt_of_passes {lexemes : List Lexeme} {c' : Cursor}
    (hp : (ls.cursor i).Passes lexemes c') (ht : lexemes.IsChain fun l m => l.touches m) :
    ∀ j ∈ (List.range' i lexemes.length).tail, Lexeme.touchesAt ls.all j := by
  intro j hj
  rw [List.tail_range', List.mem_range'_1] at hj
  obtain ⟨m, rfl⟩ : ∃ m, j = i + m + 1 := ⟨j - (i + 1), by omega⟩
  have hm : m + 1 < lexemes.length := by omega
  have hbody : ls.body.drop i = lexemes ++ c'.ahead := hp.ahead
  have hi : i ≤ ls.body.length := by
    by_contra hn
    rw [List.drop_eq_nil_of_le (by omega)] at hbody
    simp_all
  have hdrop : ls.all.drop (i + m) = lexemes.drop m ++ (c'.ahead ++ [ls.final]) := by
    rw [← List.drop_drop, Lexemes.all, List.drop_append_of_le_length hi, hbody, List.append_assoc,
      List.drop_append_of_le_length (by omega)]
  rw [Lexeme.touchesAt, hdrop, List.drop_eq_getElem_cons (by omega), List.drop_eq_getElem_cons hm]
  exact List.isChain_iff_getElem.mp ht m hm

theorem selectorPart_marked (hf : ls.final.kind = .eof)
    (h : partStarts.contains (Lexeme.kindAt ls.all i)) :
    ∃ part, (selectorPart (ls.cursor i)).value.shape.marked i = .node .selectorPart part ∧
      ls.IsPart i part := by
  have hfirst := subPart_marked hf h
  have hrest := (subPart_puts (ls.cursor i)).rest_eq
  have hmore := many_each (Q := fun t => ∃ j, partMarks.contains (Lexeme.kindAt ls.all j) ∧
    ls.IsSubPart j t) partStep_steps (fun _ _ => partStep_marked hf)
      (i + (subPart (ls.cursor i)).value.lexemes.length)
  have hvalue : (selectorPart (ls.cursor i)).value.shape.marked i
      = .node .selectorPart (.ofList (Draft.markedRow i [Draft.list
          ((subPart (ls.cursor i)).value :: (many partStep (subPart (ls.cursor i)).rest).value)])) := by
    rw [selectorPart_apply]
    exact Draft.marked_composite ..
  have hglued := selectorPart_glued (ls.cursor i)
  have htouch := touchesAt_of_passes hglued.passes hglued.touch
  rw [Draft.lexemesOf_some, Draft.lexemesOf_nil, List.append_nil, ← Draft.indices_marked,
    hvalue] at htouch
  rw [← hrest] at hmore
  refine ⟨_, hvalue, ⟨_, _, ?_, hfirst, hmore⟩, htouch⟩
  exact Draft.itemsIn_markedRow i [] [] _

/-! ## Selectors -/

/-- A step of the loop of a selector reads a combinator or a part. -/
theorem componentStep_cases (hf : ls.final.kind = .eof) {d : Draft}
    (h : (componentStep (ls.cursor i)).value = some d) :
    d.shape.marked i = .token (.run (Lexeme.kindAt ls.all i) i 0) ∨
      partStarts.contains (Lexeme.kindAt ls.all i) ∧ d = (selectorPart (ls.cursor i)).value := by
  rw [componentStep_apply, kind_cursor hf] at h
  split at h
  · next hc =>
    cases h
    have hk : Lexeme.kindAt ls.all i ≠ .eof := by
      rintro he
      simp [he, contains_combinators] at hc
    exact .inl (Option.some.inj (List.singleton_inj.mp (take_lays hf hk).marks))
  · split at h
    · next hp =>
      cases h
      exact .inr ⟨hp, rfl⟩
    · cases h

/-- What touches the end of a part does not go on with it. -/
theorem not_partMarks_of_touches (hf : ls.final.kind = .eof) {j : Nat}
    (hrest : (selectorPart (ls.cursor i)).rest = ls.cursor j) (ht : Lexeme.touchesAt ls.all j) :
    ¬partMarks.contains (Lexeme.kindAt ls.all j) := by
  have hstops : (partStep (selectorPart (ls.cursor i)).rest).value = none := by
    rw [selectorPart_apply]
    exact congrArg Outcome.value (many_stops partStep_steps _)
  intro hk
  rw [hrest, partStep_cursor hf, ht, hk, Bool.and_self, optional_true] at hstops
  cases hstops

theorem mayFollow_marked (hf : ls.final.kind = .eof) {d e : Draft}
    (hd : (componentStep (ls.cursor i)).value = some d)
    (he : (componentStep (ls.cursor (i + d.lexemes.length))).value = some e) :
    ls.MayFollow (d.shape.marked i) (e.shape.marked (i + d.lexemes.length)) := by
  rcases componentStep_cases hf hd with hmark | ⟨hp, rfl⟩
  · rw [hmark]
    trivial
  obtain ⟨part, hpart, -⟩ := selectorPart_marked hf hp
  rcases componentStep_cases hf he with hmark | ⟨hq, rfl⟩
  · rw [hpart, hmark]
    trivial
  obtain ⟨later, hlater, hispart⟩ := selectorPart_marked hf hq
  rw [hpart, hlater]
  refine ⟨_, hispart, fun ht => ?_⟩
  have hno := not_partMarks_of_touches hf (selectorPart_puts (ls.cursor i)).rest_eq ht
  -- A start of a part that is no mark is an asterisk or a name.
  simp only [contains_partStarts, contains_partMarks, Bool.or_eq_true, decide_eq_true_iff,
    List.mem_cons, List.not_mem_nil, or_false] at hq hno
  tauto

theorem selector_marked (hf : ls.final.kind = .eof) {index : Nat} {slots : Slots Kind Piece}
    (h : (selector (ls.cursor index)).value = .node .selector slots) :
    ls.IsSelector index ((slots.map id Piece.shape).marked index) := by
  have hrest := (selector_puts (ls.cursor index)).rest_eq
  have hstops : (componentStep (selector (ls.cursor index)).rest).value = none := by
    rw [selector_apply]
    exact congrArg Outcome.value (many_stops componentStep_steps _)
  rw [hrest, componentStep_apply, kind_cursor hf] at hstops
  rw [h] at hstops
  rw [selector_apply] at h
  obtain rfl := (Tree.node.inj h).2
  have hitems : (((Slots.ofList [Draft.list (many componentStep (ls.cursor index)).value]).map id
      Piece.shape).marked index).itemsIn 0 = _ :=
    (congrArg (Slots.itemsIn · 0) (Draft.marked_ofList ..)).trans
      (Draft.itemsIn_markedRow index [] [] _)
  refine ⟨?_, ?_, ?_⟩
  · rw [hitems]
    have heach := @many_each _ _ ls (fun t => ∀ part, t = .node .selectorPart part →
      ∃ i, ls.IsPart i part) componentStep_steps (fun i d hd part hpart => ?_) index
    · exact fun part hpart => heach _ hpart part rfl
    rcases componentStep_cases hf hd with hmark | ⟨hp, rfl⟩
    · cases hpart.symm.trans hmark
    · obtain ⟨slots, hslots, hispart⟩ := selectorPart_marked hf hp
      cases hpart.symm.trans hslots
      exact ⟨i, hispart⟩
  · rw [hitems]
    exact many_chain componentStep_steps (fun i d e => mayFollow_marked hf) index
  · rw [kindBehind_marked]
    split at hstops
    · cases hstops
    · split at hstops
      · cases hstops
      · exact ⟨‹_›, ‹_›⟩

end Production

/-- All selectors of a text fall into parts by what touches. -/
theorem selectors_segmented (text : Text) : Stands text fun index kind slots =>
    kind = .selector → (Lexemes.scan text).IsSelector index slots := by
  refine stands_of_makes (by decide) (fun p hp => ?_) fun _ _ =>
    Production.selector_marked (Lexemes.kind_final text)
  cases hp
  rfl

end Stylesheet
