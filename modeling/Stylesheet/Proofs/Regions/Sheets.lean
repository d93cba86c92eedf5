import Stylesheet.Proofs.Conformance
import Stylesheet.Proofs.Partition
import Stylesheet.Proofs.Readability
import Stylesheet.Proofs.Regions.Parts
import Stylesheet.Proofs.Regions.Sorting

/-!
# Regions of style sheets

The spans of a parse are regions of its text, one behind the other. Names are identifiers in the
tree, whatever they read like, so no slot that gives a role holds a token that has one already. And
the items of a selector are combinators and parts; nothing in a part has a role of its own.

Results:
* `everywhere_once`: no text of a parse gets a role twice.
* `readable_parse`: everything in the tree of a parse can be cut out of the text.
* `classify_parse`: the spans of a parse are regions of the text, and its comments are among them.
* `classify_local`: the spans of a node are those of the whole tree that lie in the node.
-/
namespace Stylesheet

open Classification

/-! ## No text gets a role twice -/

namespace Classification

variable {e : Element} {kind : Kind} {slots : Slots Kind Token}

/-- Slots that give a role are for tokens without one. -/
theorem tokenRole?_of_layout (kind : Kind) : ∀ x ∈ slotRoles kind, ∀ rule ∈ kind.layout[x.1]?,
    ∀ k ∈ rule.kinds, tokenRole? k = none := by
  cases kind <;> decide

theorem quiet_slots {s : Slots Kind Token} (h : ∀ e, some e ∈ s.toList → Quiet e) :
    (∀ t ∈ s.tokens, tokenRole? t.kind = none) ∧
      s.Everywhere fun kind _ => kind ≠ .selector ∧ slotRoles kind = [] := by
  cases s with
  | nil => exact ⟨nofun, trivial⟩
  | empty rest => exact quiet_slots (s := rest) fun e he => h e (List.mem_cons_of_mem _ he)
  | filled e rest =>
    obtain ⟨htokens, hnodes⟩ := quiet_slots (s := rest) fun e he => h e (List.mem_cons_of_mem _ he)
    have hfirst := h e List.mem_cons_self
    refine ⟨fun t ht => ?_, hfirst.nodes, hnodes⟩
    rcases List.mem_append.mp ht with ht | ht
    · exact hfirst.tokens t ht
    · exact htokens t ht

theorem Quiet.node (hk : kind ≠ .selector) (hroles : slotRoles kind = [])
    (h : ∀ e, some e ∈ slots.toList → Quiet e) : Quiet (.node kind slots) :=
  ⟨(quiet_slots h).1, ⟨hk, hroles⟩, (quiet_slots h).2⟩

/-- Nodes of a parse as far as classification looks at them. -/
structure Plain (kind : Kind) (slots : Slots Kind Token) : Prop where
  keeps : Keeps Kind.layout Kind.contents kind slots
  snug : kind = .selectorPart → Token.Snug slots.tokens

/-- An element of a kind of tokens is a token. -/
theorem exists_token (h : e.Everywhere Plain) (hk : e.kind.isToken) : ∃ t, e = .token t := by
  cases e with
  | token t => exact ⟨t, rfl⟩
  | node kind slots =>
    have hcomposite := Kind.isComposite_of_isToken hk
    rw [show (Tree.node kind slots).kind = kind from rfl, h.1.keeps.composite] at hcomposite
    cases hcomposite

theorem quiet_of_isToken (h : e.Everywhere Plain) (hk : e.kind.isToken)
    (hrole : tokenRole? e.kind = none) : Quiet e := by
  obtain ⟨t, rfl⟩ := exists_token h hk
  exact Place.quiet_token hrole

/-- The kinds in the slots of what a part is made of. -/
theorem isToken_of_layout : ∀ kind ∈ [Kind.selectorSubPart, .pseudoClass],
    slotRoles kind = [] ∧ tokenRole? kind = none ∧ ∀ rule ∈ kind.layout, ∀ k ∈ rule.kinds,
      k.isToken ∧ tokenRole? k = none := by
  decide

theorem ne_of_mem_part : ∀ kind ∈ [Kind.selectorSubPart, .pseudoClass],
    kind ≠ .selector ∧ kind ≠ .list ∧ kind ≠ .error := by
  decide

theorem quiet_of_mem_part (h : e.Everywhere Plain) (hk : e.kind ∈ [Kind.selectorSubPart, .pseudoClass]) :
    Quiet e := by
  obtain ⟨hroles, hrole, hrules⟩ := isToken_of_layout e.kind hk
  cases e with
  | token t => exact Place.quiet_token hrole
  | node kind slots =>
    obtain ⟨hselector, hlist, herror⟩ := ne_of_mem_part kind hk
    refine Quiet.node hselector hroles fun e he => ?_
    obtain ⟨i, hi⟩ := List.getElem?_of_mem he
    obtain ⟨rule, hrule, htakes⟩ := h.1.keeps.takes hlist herror hi
    obtain ⟨htoken, hnone⟩ := hrules rule (List.mem_of_getElem? hrule) e.kind htakes.1
    exact quiet_of_isToken (h.2.of_mem he) htoken hnone

theorem quiet_part (h : (Tree.node .selectorPart slots : Element).Everywhere Plain) :
    Quiet (.node .selectorPart slots) := by
  refine Quiet.node (by decide) rfl fun e he => ?_
  obtain ⟨i, hi⟩ := List.getElem?_of_mem he
  obtain ⟨rule, hrule, htakes⟩ := h.1.keeps.takes (by decide) (by decide) hi
  obtain ⟨rfl, rfl⟩ : i = 0 ∧ rule = .one .list := by
    cases i with
    | zero => exact ⟨rfl, (Option.some.inj hrule).symm⟩
    | succ i => cases hrule
  have hlist : e.kind = .list := List.mem_singleton.mp htakes.1
  have hitems : AreItems [.selectorSubPart, .pseudoClass] e.slots.toList :=
    h.1.keeps.contents 0 e hi
  have hbelow := h.2.of_mem he
  cases e with
  | token t => exact Place.quiet_token (by rw [show t.kind = .list from hlist]; decide)
  | node kind slots =>
    obtain rfl : kind = .list := hlist
    refine Quiet.node (by decide) rfl fun e he => ?_
    obtain ⟨_, ⟨⟩, hitem⟩ := hitems _ he
    exact quiet_of_mem_part (hbelow.2.of_mem he) hitem.1

/-- What the items of a selector are. -/
theorem quiet_item (h : e.Everywhere Plain) (hk : e.kind ∈ Kind.selectorPart :: Kind.combinators) :
    Quiet e ∧ Token.Snug e.tokens := by
  have htable : ∀ k ∈ Kind.selectorPart :: Kind.combinators,
      tokenRole? k = none ∧ (k = .selectorPart ∨ k.isToken) := by decide
  obtain ⟨hrole, hpart⟩ := htable e.kind hk
  cases e with
  | token t => exact ⟨Place.quiet_token hrole, Place.snug_token t⟩
  | node kind slots =>
    rcases hpart with hpart | htoken
    · obtain rfl : kind = .selectorPart := hpart
      exact ⟨quiet_part h, h.1.snug rfl⟩
    · obtain ⟨t, ht⟩ := exists_token h htoken
      cases ht

theorem once_of_plain (kind : Kind) (slots : Slots Kind Token) (h : Plain kind slots)
    (hbelow : slots.Everywhere Plain) : Once kind slots := by
  constructor
  · intro x hx t ht
    have hloose : kind ≠ .list ∧ kind ≠ .error := by
      constructor <;> rintro rfl <;> cases hx
    obtain ⟨rule, hrule, htakes⟩ := h.keeps.takes hloose.1 hloose.2 ht
    exact tokenRole?_of_layout kind x hx rule hrule t.kind htakes.1
  · rintro rfl list hlist e he
    have hitems : AreItems (.selectorPart :: Kind.combinators) list.slots.toList :=
      h.keeps.contents 0 list hlist
    obtain ⟨_, ⟨⟩, hitem⟩ := hitems _ he
    refine quiet_item ?_ hitem.1
    have hlower := hbelow.of_mem (List.mem_of_getElem? hlist)
    cases list with
    | token t => cases he
    | node kind slots => exact hlower.2.of_mem he

end Classification

/-- No text of a parse gets a role twice. -/
theorem everywhere_once (text : Text) : (parse text).tree.root.element.Everywhere Once := by
  have hsnug : (parse text).tree.root.element.Everywhere fun kind slots =>
      kind = .selectorPart → Token.Snug slots.tokens := ⟨nofun, snug_parts text⟩
  have hplain : (parse text).tree.root.element.Everywhere Plain :=
    ((everywhere_keeps text).and hsnug).mono fun _ _ h => ⟨h.1, h.2⟩
  exact hplain.deepen once_of_plain

/-! ## Everything can be read -/

theorem isSome_of_mapM {α β : Type} {f : α → Option β} {l : List α} (h : (l.mapM f).isSome) :
    ∀ a ∈ l, (f a).isSome := by
  induction l with
  | nil => exact nofun
  | cons a l ih =>
    rw [List.mapM_cons] at h
    obtain ⟨bs, hbs⟩ := Option.isSome_iff_exists.mp h
    obtain ⟨b, hb, hrest⟩ := Option.bind_eq_some_iff.mp hbs
    obtain ⟨cs, hcs, -⟩ := Option.bind_eq_some_iff.mp hrest
    refine List.forall_mem_cons.mpr ⟨?_, ih (Option.isSome_of_mem hcs)⟩
    exact Option.isSome_of_mem hb

theorem lexed_parse (text : Text) : (parse text).tree.Lexed := by
  intro p hp
  have hlocated := List.mem_map_of_mem (f := Place.located) hp
  rw [located_parse, ← tokens_parse, List.mem_map] at hlocated
  obtain ⟨⟨position, t⟩, ht, heq⟩ := hlocated
  obtain ⟨rfl, helement⟩ := Prod.mk.inj heq
  rw [Place.textSpan_of_token helement.symm]
  exact boundaries_parse text _ ht

/-- Everything in the tree of a parse can be cut out of the text. -/
theorem readable_parse (text : Text) : (parse text).tree.Readable := by
  rw [SyntaxTree.readable_iff (lexed_parse text)]
  intro p hp s hs
  have hwritten : ((parse text).tree.tokens.mapM (parse text).tree.written?).isSome := by
    rw [← Option.isSome_map, written_parse]
    rfl
  obtain ⟨cut, hcut⟩ := Option.isSome_iff_exists.mp (isSome_of_mapM hwritten p hp)
  obtain ⟨leading, hleading, hrest⟩ := Option.bind_eq_some_iff.mp hcut
  obtain ⟨body, -, hrest⟩ := Option.bind_eq_some_iff.mp hrest
  obtain ⟨trailing, htrailing, -⟩ := Option.bind_eq_some_iff.mp hrest
  rw [Text.sliceable_iff]
  rcases List.mem_append.mp hs with hs | hs
  · exact isSome_of_mapM (Option.isSome_of_mem hleading) s hs
  · exact isSome_of_mapM (Option.isSome_of_mem htrailing) s hs

/-- No trivia of a lexeme is empty. -/
theorem Lexemes.gap_pos {text : Text} {l : Lexeme} (hl : l ∈ (scan text).all) {gap : Gap}
    (h : gap ∈ l.leading ++ l.trailing) : 0 < gap.trivia.width := by
  obtain ⟨front, back, hall⟩ := List.append_of_mem hl
  have hplaced := placed_of_split hall
  apply Text.width_pos
  rcases List.mem_append.mp h with h | h
  · obtain ⟨before, behind, hgaps⟩ := List.append_of_mem h
    exact (hgaps ▸ hplaced.leading).split.1
  · obtain ⟨before, behind, hgaps⟩ := List.append_of_mem h
    exact (hgaps ▸ hplaced.trailing).split.1

/-- The comments of a parse are not empty. -/
theorem commentsFull_parse (text : Text) :
    ∀ t ∈ (parse text).tree.slots.tokens, t.CommentsFull := by
  intro t ht piece hpiece _
  rw [tokens_parse, List.mem_map] at ht
  obtain ⟨p, hp, rfl⟩ := ht
  have hlexemes (l : Lexeme) (hl : l ∈ p.lexemes) : l ∈ (Lexemes.scan text).all :=
    lexemes_draftOf text ▸ List.mem_flatMap_of_mem hp hl
  cases p with
  | missing kind => cases hpiece
  | run kind first more =>
    rcases List.mem_append.mp hpiece with hpiece | hpiece
    · obtain ⟨gap, hgap, rfl⟩ := List.mem_map.mp hpiece
      exact Lexemes.gap_pos (hlexemes first List.mem_cons_self) (List.mem_append_left _ hgap)
    · obtain ⟨gap, hgap, rfl⟩ := List.mem_map.mp hpiece
      have hlast := List.mem_of_getLast? (Piece.getLast?_run first more)
      exact Lexemes.gap_pos (hlexemes _ hlast) (List.mem_append_right _ hgap)

theorem arranged_parse (text : Text) : (parse text).tree.Arranged :=
  ⟨everywhere_once text, commentsFull_parse text⟩

/-! ## Regions -/

/-- The comments of a tree, in order: those of the trivia of its tokens. -/
def SyntaxTree.comments (tree : SyntaxTree) : List TriviaPlace :=
  (tree.tokens.flatMap Place.trivia).filter (·.piece.kind.isComment)

/-- Spans that are regions of a text, one behind the other, with those of the comments of a tree
among them. -/
structure Regions (text : Text) (tree : SyntaxTree) (spans : List ClassifiedSpan) : Prop where
  filled : ∀ s ∈ spans, s.span.start < s.span.stop
  /-- A region lies in the text and splits no character. -/
  sliceable : ∀ s ∈ spans, text.Sliceable s.span
  increasing : spans.Pairwise fun a b => a.span.start < b.span.start
  disjoint : spans.Pairwise fun a b => a.span.stop ≤ b.span.start
  /-- Each comment of the trivia is a region, once, and no other text is a comment. -/
  comments : (spans.filter (·.role = .comment)).map (·.span) = tree.comments.map (·.span)

theorem SyntaxTree.pairwise_comments (tree : SyntaxTree) :
    (commentsOf (tree.tokens.flatMap Place.trivia)).Pairwise fun a b => a.span.Before b.span := by
  have htoken (p : Place) (hp : p ∈ tree.tokens) :
      tree.Has p ∧ ∃ t, p.element = .token t ∧ commentsOf p.trivia = p.spans.filter (·.role = .comment) := by
    obtain ⟨hhas, hnode⟩ := mem_tokens.mp hp
    obtain ⟨t, ht⟩ := Place.element_of_not_isNode hnode
    refine ⟨hhas, t, ht, ?_⟩
    rw [Place.filter_spans, Place.tokenPlaces_token ht, List.flatMap_singleton]
  rw [commentsOf_flatMap, List.pairwise_flatMap]
  constructor
  · intro p hp
    obtain ⟨-, t, ht, hcomments⟩ := htoken p hp
    rw [hcomments]
    exact (Place.pairwise_spans_token ht).filter _
  · refine tree.root.contiguous.pairwise.imp_of_mem fun hp hq hbefore a ha b hb => ?_
    obtain ⟨hp, _, -, hcomments⟩ := htoken _ hp
    obtain ⟨hq, _, -, hcomments'⟩ := htoken _ hq
    rw [hcomments] at ha
    rw [hcomments'] at hb
    exact hbefore.mono (hp.within_of_mem_spans (List.mem_of_mem_filter ha))
      (hq.within_of_mem_spans (List.mem_of_mem_filter hb))

/-- The comments among the sorted spans of a tree. -/
theorem SyntaxTree.Arranged.filter_classify {tree : SyntaxTree} (h : tree.Arranged) :
    (classify tree.root).filter (·.role = .comment)
      = commentsOf (tree.tokens.flatMap Place.trivia) := by
  have hspans : tree.root.spans.filter (·.role = .comment)
      = commentsOf (tree.tokens.flatMap Place.trivia) := tree.root.filter_spans
  apply ClassifiedSpan.eq_of_perm
  · rw [← hspans]
    exact tree.root.perm_classify.filter _
  · exact (h.pairwise_start tree.has_root).filter _
  · refine tree.pairwise_comments.imp_of_mem fun ha _ hbefore => ?_
    rw [← hspans] at ha
    exact Nat.lt_of_lt_of_le (h.filled tree.has_root (List.mem_of_mem_filter ha)) hbefore

/-- The spans of a parse are regions of its text, whatever the text. -/
theorem classify_parse (text : Text) :
    Regions text (parse text).tree (classify (parse text).tree.root) := by
  have harranged := arranged_parse text
  have hroot := (parse text).tree.has_root
  have hspans {s : ClassifiedSpan} (hs : s ∈ classify (parse text).tree.root) :
      s ∈ (parse text).tree.root.spans := (Place.perm_classify _).mem_iff.mp hs
  constructor
  · exact fun s hs => harranged.filled hroot (hspans hs)
  · intro s hs
    by_cases hc : s.role = .comment
    · obtain ⟨q, hq, t, ht, -, rfl⟩ := Place.exists_of_comment (hspans hs) hc
      exact (readable_parse text).trivia q (SyntaxTree.mem_tokens.mp hq).1 t ht
    · obtain ⟨q, hq, -, hspan, -⟩ := hroot.exists_of_mem_spans (hspans hs) hc
      rw [hspan]
      exact (readable_parse text).text q hq
  · exact harranged.pairwise_start hroot
  · exact harranged.pairwise_classify hroot
  · rw [harranged.filter_classify, commentsOf, List.map_map]
    rfl

/-- The spans of a node are those of the whole tree that lie in the node, if it is below no
selector. What a selector is made of has no roles of its own: below one, some of them are left. -/
theorem classify_local (text : Text) (p : Place) (hp : (parse text).tree.Has p) (hn : p.isNode) :
    (¬(parse text).tree.Below .selector p → classify p
      = (classify (parse text).tree.root).filter fun s => s.span.Within p.fullSpan) ∧
    ((parse text).tree.Below .selector p → (classify p).Sublist
      ((classify (parse text).tree.root).filter fun s => s.span.Within p.fullSpan)) :=
  ⟨fun hb => (arranged_parse text).classify_eq_filter hp hn hb,
    fun _ => (arranged_parse text).classify_sublist hp⟩

theorem classify_local_small : ∃ tree p q, (parse "a b{c:1}".toList).tree = tree ∧
    (tree.Has p ∧ p.isNode ∧ ¬tree.Below .selector p ∧
      classify p = (classify tree.root).filter fun s => s.span.Within p.fullSpan) ∧
    tree.Has q ∧ q.isNode ∧ tree.Below .selector q ∧
      (classify q).Sublist ((classify tree.root).filter fun s => s.span.Within q.fullSpan) := by
  have hnodes : ((parse "a b{c:1}".toList).tree.at? [0, 0, 1]).any (fun p =>
        p.isNode && !decide ((parse "a b{c:1}".toList).tree.Below .selector p)) ∧
      ((parse "a b{c:1}".toList).tree.at? [0, 0, 0, 0, 0, 0]).any fun p =>
        p.isNode && decide ((parse "a b{c:1}".toList).tree.Below .selector p) := by
    decide +kernel
  obtain ⟨hbody, hpart⟩ := hnodes
  obtain ⟨p, hp, hbody⟩ := (Option.any_eq_true _ _).mp hbody
  obtain ⟨q, hq, hpart⟩ := (Option.any_eq_true _ _).mp hpart
  obtain ⟨hnode, hbelow⟩ := Bool.and_eq_true_iff.mp hbody
  obtain ⟨hnode', hbelow'⟩ := Bool.and_eq_true_iff.mp hpart
  have hbelow := of_decide_eq_false ((Bool.not_eq_true' _).mp hbelow)
  have hbelow' := of_decide_eq_true hbelow'
  have hhas := SyntaxTree.has_of_at? hp
  have hhas' := SyntaxTree.has_of_at? hq
  exact ⟨_, p, q, rfl, ⟨hhas, hnode, hbelow, (classify_local _ p hhas hnode).1 hbelow⟩,
    hhas', hnode', hbelow', (classify_local _ q hhas' hnode').2 hbelow'⟩

end Stylesheet
