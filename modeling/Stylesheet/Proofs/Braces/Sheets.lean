import Stylesheet.Proofs.Braces.Productions
import Stylesheet.Proofs.Likeness

/-!
# Braces of whole texts

The braces of a tree are the braces of its text. A node in braces with an opening brace has the
closing one that matches it, or none if nothing does, and holds what stands between the two. So what
fits nowhere inside a block never takes the brace that closes the block, and a block never ends
before it.

A plain value that runs over an opening brace is the one exception: it ends at the brace that
closes the group it ran into, and that brace then closes the block around the value.

Results:
* `Slots.everywhere_marked`: what holds of all nodes with what stands behind them, told by marks.
* `parse_braces`: nodes in braces match as the text does.
-/
namespace Stylesheet

/-! ## Marks of a text -/

/-- Which lexemes of a text each piece of what is read of it is made of. -/
def marksOf (text : Text) : Slots Kind Mark := (shapeOf text).marked 0

namespace Mark

/-- The mark of `count` lexemes from an index on. -/
def ofRun (kind : Kind) (first : Nat) : Nat → Mark
  | 0 => .missing kind
  | more + 1 => .run kind first more

/-- The mark of a closing brace: the one at an index, or a missing one. -/
def closing : Option Nat → Mark
  | some i => .run .rightBrace i 0
  | none => .missing .rightBrace

/-- The indices of all lexemes below a slot. -/
def indicesBelow (slot : Option (Tree Kind Mark)) : List Nat :=
  ((slot.map Tree.tokens).getD []).flatMap indices

end Mark

namespace Lexemes

/-- The number of lexemes behind the opening brace at an index, up to the brace that matches it, or
to the end of the text. -/
def countInside (ls : Lexemes) (i : Nat) : Nat :=
  (Lexeme.partner? ls.all i).getD ls.body.length - (i + 1)

/-- The slots of a node in braces. With the opening brace at index `i` the closing one matches it,
and the content covers what stands between; the content of a value is one token. -/
inductive InBraces (ls : Lexemes) (kind : Kind) : List (Option (Tree Kind Mark)) → Prop
  | bare (content : Option (Tree Kind Mark)) :
      InBraces ls kind [some (.token (.missing .leftBrace)), content,
        some (.token (.missing .rightBrace))]
  | braced (i : Nat) (content : Option (Tree Kind Mark))
      (hopening : Lexeme.kindAt ls.all i = .leftBrace)
      (hcontent : Mark.indicesBelow content = List.range' (i + 1) (ls.countInside i))
      (hvalue : kind = .propertyValueWithBraces →
        content = some (.token (.ofRun .propertyValueToken (i + 1) (ls.countInside i)))) :
      InBraces ls kind [some (.token (.run .leftBrace i 0)), content,
        some (.token (.closing (Lexeme.partner? ls.all i)))]

end Lexemes

/-- No plain value of a text covers an opening brace. -/
def PlainValuesUnbraced (text : Text) : Prop :=
  (marksOf text).Everywhere fun kind slots => kind = .propertyValue →
    ∀ i ∈ slots.tokens.flatMap Mark.indices,
      Lexeme.kindAt (Lexemes.scan text).all i ≠ .leftBrace

instance : DecidablePred PlainValuesUnbraced := fun _ =>
  inferInstanceAs (Decidable (Slots.Everywhere _ _))

/-- The braces of a tree are the braces of its text. -/
structure KeepsBraces (text : Text) : Prop where
  /-- The marks are the lexemes of the text, from the first to the last. -/
  indices : (marksOf text).tokens.flatMap Mark.indices
    = List.range (Lexemes.scan text).all.length
  /-- The tree is made from the lexemes as the marks say. -/
  tree : (parse text).tree.slots = (marksOf text).map id (Mark.token (Lexemes.scan text).all)
  nodes : (marksOf text).Everywhere fun kind slots =>
    kind = .block ∨ kind = .propertyValueWithBraces →
      (Lexemes.scan text).InBraces kind slots.toList

/-! ## From drafts to marks -/

section Marked

variable {P : Kind → Slots Kind Piece → List Lexeme → Prop} {Q : Kind → Slots Kind Mark → Prop}
  {ls : List Lexeme}

mutual

theorem Tree.everywhere_marked
    (h : ∀ before kind slots after, ls = before ++ slots.tokens.flatMap Piece.lexemes ++ after →
      P kind slots after → Q kind ((slots.map id Piece.shape).marked before.length))
    (d : Tree Kind Piece) {before after : List Lexeme}
    (hls : ls = before ++ d.tokens.flatMap Piece.lexemes ++ after)
    (hd : d.EverywhereBefore P after) :
    ((d.map id Piece.shape).marked before.length).Everywhere Q := by
  match d with
  | .token p => cases p <;> trivial
  | .node kind slots =>
    exact ⟨h before kind slots after hls hd.1, Slots.everywhere_marked h slots hls hd.2⟩

/-- What holds of all nodes with the lexemes behind them holds of their marks. -/
theorem Slots.everywhere_marked
    (h : ∀ before kind slots after, ls = before ++ slots.tokens.flatMap Piece.lexemes ++ after →
      P kind slots after → Q kind ((slots.map id Piece.shape).marked before.length))
    (s : Slots Kind Piece) {before after : List Lexeme}
    (hls : ls = before ++ s.tokens.flatMap Piece.lexemes ++ after)
    (hs : s.EverywhereBefore P after) :
    ((s.map id Piece.shape).marked before.length).Everywhere Q := by
  match s with
  | .nil => trivial
  | .empty rest => exact Slots.everywhere_marked h rest hls hs
  | .filled d rest =>
    have hall : ls = before ++ d.tokens.flatMap Piece.lexemes
        ++ (rest.tokens.flatMap Piece.lexemes ++ after) := by
      rw [hls, Slots.tokens, List.flatMap_append]
      simp only [List.append_assoc]
    have hcount : before.length + (d.map id Piece.shape).lexemeCount
        = (before ++ d.tokens.flatMap Piece.lexemes).length := by
      rw [List.length_append, Tree.lexemeCount_shape]
    refine ⟨Tree.everywhere_marked h d hall hs.1, ?_⟩
    show ((rest.map id Piece.shape).marked _).Everywhere Q
    rw [hcount]
    exact Slots.everywhere_marked h rest (by rw [hall]; simp only [List.append_assoc]) hs.2

end

end Marked

theorem Tree.marked_token (p : Piece) (index : Nat) :
    Tree.marked index (.token p.shape) = .token (.ofRun p.kind index p.lexemes.length) := by
  cases p <;> rfl

namespace Draft

theorem lexemeCount_shape (d : Draft) : d.shape.lexemeCount = (lexemesOf [some d]).length := by
  rw [shape, Tree.lexemeCount_shape, lexemesOf_some, lexemesOf_nil, List.append_nil, lexemes]

/-- What a slot becomes, its first lexeme being the one at an index. -/
def markedSlot (index : Nat) (slot : Option Draft) : Option (Tree Kind Mark) :=
  slot.map fun d => d.shape.marked index

theorem indicesBelow_markedSlot (index : Nat) (slot : Option Draft) :
    Mark.indicesBelow (markedSlot index slot)
      = List.range' index (lexemesOf [slot]).length := by
  cases slot with
  | none => rfl
  | some d =>
    show (d.shape.marked index).tokens.flatMap Mark.indices = _
    rw [Tree.indices_marked, lexemeCount_shape]

/-- The marks of three slots, tokens around something. -/
theorem toList_marked_around (index : Nat) (a b : Piece) (content : Option Draft) :
    (((Slots.ofList [some (.token a), content, some (.token b)]).map id Piece.shape).marked
        index).toList
      = [some (.token (.ofRun a.kind index a.lexemes.length)),
        markedSlot (index + a.lexemes.length) content,
        some (.token (.ofRun b.kind (index + a.lexemes.length + (lexemesOf [content]).length)
          b.lexemes.length))] := by
  rw [← Tree.marked_token, ← Tree.marked_token]
  cases content with
  | none => rfl
  | some d =>
    rw [← lexemeCount_shape]
    rfl

end Draft

namespace Lexemes

open Draft

/-- Where the text matches an opening brace, the node it opens is closed. -/
theorem partner?_opening {ls : Lexemes} (hfinal : ls.final.isBrace = false)
    {before content after : List Lexeme} {l : Lexeme} {closing : Piece} (hl : l.kind = .leftBrace)
    (hbody : ls.body = before ++ l :: (content ++ closing.lexemes ++ after))
    (hclosing : Closing after closing)
    (hcontent : content.length = Run.bracedLength 0 (content ++ closing.lexemes ++ after)) :
    ls.countInside before.length = content.length ∧
      Mark.closing (Lexeme.partner? ls.all before.length)
        = .ofRun closing.kind (before.length + 1 + content.length) closing.lexemes.length := by
  have hpartner : Lexeme.partner? ls.all before.length
      = if content.length < (content ++ closing.lexemes ++ after).length then
          some (before.length + 1 + content.length) else none := by
    rw [all, Lexeme.partner?_concat hfinal, hbody, Lexeme.partner?_append hl, ← hcontent]
  have hlength := congrArg List.length hbody
  rw [List.length_append, List.length_cons] at hlength
  rw [countInside, hpartner]
  cases hclosing with
  | found r hr =>
    have hlt : content.length < (content ++ [r] ++ after).length := by
      rw [List.length_append, List.length_append, List.length_singleton]
      omega
    rw [show (Piece.run .rightBrace r []).lexemes = [r] from rfl, if_pos hlt]
    exact ⟨by rw [Option.getD_some]; omega, rfl⟩
  | lost hnil =>
    subst hnil
    rw [show (Piece.missing .rightBrace).lexemes = [] from rfl, List.append_nil,
      List.append_nil] at hlength ⊢
    rw [if_neg (Nat.lt_irrefl _)]
    exact ⟨by rw [Option.getD_none]; omega, rfl⟩

/-- A node in braces, by its marks. -/
theorem inBraces_marked {ls : Lexemes} (hfinal : ls.final.isBrace = false) {kind : Kind}
    {before after : List Lexeme} {slots : Slots Kind Piece}
    (hbody : ls.body = before ++ slots.tokens.flatMap Piece.lexemes ++ after)
    (h : Braced kind slots after) (hk : kind = .block ∨ kind = .propertyValueWithBraces) :
    ls.InBraces kind ((slots.map id Piece.shape).marked before.length).toList := by
  obtain ⟨list, rfl⟩ : ∃ list, slots = Slots.ofList list := ⟨_, (Slots.ofList_toList slots).symm⟩
  have henclosed := h.enclosed hk
  have hvalue := h.content
  rw [Slots.toList_ofList] at henclosed hvalue
  rw [tokens_ofList, ← lexemesOf_eq] at hbody
  cases henclosed with
  | bare content =>
    have hmarks := toList_marked_around before.length (.missing .leftBrace) (.missing .rightBrace)
      content
    rw [missing, missing, hmarks]
    exact .bare _
  | @braced l content closing hl hclosing hcontent =>
    have hinside : lexemesOf [some (single .leftBrace l), content, some (.token closing)] ++ after
        = l :: (lexemesOf [content] ++ closing.lexemes ++ after) := by
      cases content <;> simp [lexemes_token]
    rw [List.append_assoc, hinside] at hbody
    obtain ⟨hcount, hmatch⟩ := partner?_opening hfinal hl hbody hclosing hcontent
    have hopening : Lexeme.kindAt ls.all before.length = .leftBrace := by
      rw [Lexeme.kindAt, all, hbody, List.append_assoc, List.getElem?_append_right (le_refl _)]
      simpa using hl
    rw [single, toList_marked_around]
    show ls.InBraces kind [some (.token (.run .leftBrace before.length 0)),
      markedSlot (before.length + 1) content,
      some (.token (.ofRun closing.kind (before.length + 1 + (lexemesOf [content]).length)
        closing.lexemes.length))]
    rw [← hmatch]
    refine .braced before.length _ hopening ?_ fun hn => ?_
    · rw [indicesBelow_markedSlot, hcount]
    · obtain ⟨p, hp, hkind⟩ := hvalue hn
      cases hp
      have hlexemes : lexemesOf [some (.token p)] = p.lexemes := by
        simp [lexemes_token]
      rw [hcount, ← hkind, hlexemes, ← Tree.marked_token]
      rfl

end Lexemes

/-! ## Whole texts -/

open Production

theorem Mark.lexemes_run (kind : Kind) (first more : Nat) (ls : List Lexeme) :
    ((Mark.run kind first more).piece ls).lexemes = (ls.drop first).take (more + 1) := by
  cases hdrop : ls.drop first <;> simp [piece, hdrop, Piece.lexemes]

theorem Mark.exists_index {ls : List Lexeme} {m : Mark} {l : Lexeme}
    (h : l ∈ (m.piece ls).lexemes) : ∃ i ∈ m.indices, Lexeme.kindAt ls i = l.kind := by
  cases m with
  | missing kind => cases h
  | run kind first more =>
    rw [lexemes_run] at h
    obtain ⟨j, hj⟩ := List.getElem?_of_mem h
    rw [List.getElem?_take] at hj
    obtain ⟨hlt, hget⟩ := Option.ite_none_right_eq_some.mp hj
    rw [List.getElem?_drop] at hget
    refine ⟨first + j, List.mem_range'_1.mpr (by omega), ?_⟩
    rw [Lexeme.kindAt, hget]
    rfl

/-- Plain values without an opening brace, as the draft of a text has them. -/
theorem plain_draftOf {text : Text} (h : PlainValuesUnbraced text) :
    (Slots.ofList (draftOf (Lexemes.scan text)).value).Everywhere Draft.Plain := by
  rw [draftOf_marked, Slots.everywhere_map]
  refine h.mono fun kind slots hplain hk p hp l hl => ?_
  rw [Slots.tokens_map] at hp
  obtain ⟨m, hm, rfl⟩ := List.mem_map.mp hp
  obtain ⟨i, hi, hkind⟩ := Mark.exists_index hl
  rw [← hkind]
  exact hplain hk i (List.mem_flatMap.mpr ⟨m, hm, hi⟩)

/-- What is read of a text: its items, matched, and the final lexeme. -/
theorem draftOf_matched (ls : Lexemes) :
    ∃ items final, (draftOf ls).value = [items, some (Draft.single .eof final)] ∧
      Matched (.ofLexemes ls) [items] (draftOf ls).rest := by
  rw [draftOf, document_apply]
  exact ⟨_, _, rfl, items_matched (.ofLexemes ls)⟩

/-- What holds of all nodes among the items of a text, by the lexemes behind them, holds of their
marks. -/
theorem everywhere_marksOf {P : Kind → Slots Kind Piece → List Lexeme → Prop}
    {Q : Kind → Slots Kind Mark → Prop} {text : Text} {items : Option Draft} {final : Lexeme}
    (hvalue : (draftOf (Lexemes.scan text)).value = [items, some (Draft.single .eof final)])
    (hbody : (Lexemes.scan text).body = Draft.lexemesOf [items])
    (hitems : (Slots.ofList [items]).EverywhereBefore P [])
    (h : ∀ before kind slots after, (Lexemes.scan text).body
        = before ++ slots.tokens.flatMap Piece.lexemes ++ after →
      P kind slots after → Q kind ((slots.map id Piece.shape).marked before.length)) :
    (marksOf text).Everywhere Q := by
  rw [marksOf, shapeOf, hvalue]
  cases items with
  | none => trivial
  | some d =>
    have hall : (Lexemes.scan text).body = [] ++ d.tokens.flatMap Piece.lexemes ++ [] := by
      rw [hbody]
      simp [Draft.lexemes]
    exact ⟨Tree.everywhere_marked h d hall hitems.1, trivial, trivial⟩

/-- If no plain value covers an opening brace, the braces of a tree are the braces of its text. -/
theorem parse_braces (text : Text) (h : PlainValuesUnbraced text) : KeepsBraces text := by
  obtain ⟨items, final, hvalue, hmatched⟩ := draftOf_matched (Lexemes.scan text)
  have hplain := plain_draftOf h
  rw [hvalue] at hplain
  have hcalm : Calm (.ofLexemes (Lexemes.scan text)) [items] :=
    ⟨fun l hl => (Lexemes.kind_of_mem_body hl).2, ((Slots.everywhere_append _ [_] [_]).mp hplain).1⟩
  have hnodes := hmatched.nodes hcalm
  have hbody : (Lexemes.scan text).body = _ := hmatched.passes.ahead
  rw [ahead_draftOf] at hnodes hbody
  rw [List.append_nil] at hbody
  have hfinal : (Lexemes.scan text).final.isBrace = false := by
    rw [Lexeme.isBrace, Lexemes.kind_final]
    rfl
  refine ⟨?_, slots_marked text, everywhere_marksOf hvalue hbody hnodes ?_⟩
  · rw [marksOf, Slots.indices_marked, lexemeCount_shapeOf, List.range_eq_range']
  · intro before kind slots after hsplit hbraced hk
    exact Lexemes.inBraces_marked hfinal hsplit hbraced hk

/-- Braces that match nothing stand in front of a rule set and behind it. -/
theorem parse_braces_small :
    PlainValuesUnbraced "\x7da{b:{c{d}};!{;}e:1;{}}f\x7bg:\x7b".toList ∧
      KeepsBraces "\x7da{b:{c{d}};!{;}e:1;{}}f\x7bg:\x7b".toList := by
  have h : PlainValuesUnbraced "\x7da{b:{c{d}};!{;}e:1;{}}f\x7bg:\x7b".toList := by decide +kernel
  exact ⟨h, parse_braces _ h⟩

example : ¬PlainValuesUnbraced "a{b:c{d}e}".toList := by decide +kernel

end Stylesheet
