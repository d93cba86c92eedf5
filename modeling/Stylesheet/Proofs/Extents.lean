import Stylesheet.Proofs.Regions.Sheets

/-!
# Where texts start and stop

The text of a node is told from two searches, one for the first present token and one for the last.
Missing tokens have no say: they take no room, so the first present token starts where the node does,
and the last one stops where the node does. What is left of the node between the trivia of the two is
its text.

**Texts of a parse.** A present token of a parse is made of lexemes, and only the final one has no
text. The final token stands in a slot of the root. So below any other node present tokens have text,
and the text of the node starts with a character of the first one and stops with a character of the
last one. No trivia lies in the text of a token.

Results:
* `Place.delimited`: text and trivia of all places.
* `width_pos_of_parse`: present tokens of a parse have text, but for the final one.
* `SyntaxTree.offTrivia_of_within`: what lies in the text of a token is off all trivia.
* `SyntaxTree.trimmed_parse`: the text of a node of a parse, whatever is missing at its ends.
* `Place.extents`: both together.
-/
namespace Stylesheet

/-! ## Present tokens -/

namespace Place

variable {p q first last : Place}

/-- The tokens at and below a place that are not missing, in document order. -/
def presentTokens (p : Place) : List Place := p.descendantTokens.filter (!·.isMissing)

theorem presentTokens_eq (p : Place) : p.presentTokens = p.presentPlaces := by
  have htokens : p.descendantTokens = p.tokenPlaces := Tree.tokens_events p.path p.position p.element
  rw [presentTokens, htokens, presentPlaces]
  refine List.filter_congr fun q hq => ?_
  obtain ⟨t, ht⟩ := isToken_of_mem hq
  rw [isMissing, token?, ht]
  rfl

/-! ### Borders of the text -/

theorem start_textSpan (p : Place) : p.textSpan.start = p.position + p.leadingWidth := by
  obtain ⟨path, position, e⟩ := p
  cases e <;> rfl

theorem stop_textSpan_of_token {t : Token} (hp : p.element = .token t) :
    p.textSpan.stop + p.trailingWidth = p.fullSpan.stop := by
  have htrailing : p.trailingWidth = t.trailingWidth := by rw [trailingWidth, hp]
  rw [textSpan_of_token hp, htrailing, fullSpan, fullWidth_token hp, Token.fullWidth]
  simp only [Span.stop_ofWidth]
  omega

/-- The text span of a node with a present token, from the first to the last of them. -/
theorem textSpan_of_present (hp : p.isNode) (hfirst : p.firstPresent? = some first)
    (hlast : p.lastPresent? = some last) :
    p.textSpan.start = first.textSpan.start ∧ p.textSpan.stop = last.textSpan.stop := by
  rcases p.textSpan_cases hp with ⟨-, -, hnone⟩ | ⟨first', last', hfirst', hlast', hstart, hstop⟩
  · rw [hnone] at hfirst
    cases hfirst
  · obtain rfl := Option.some.inj (hfirst.symm.trans hfirst')
    obtain rfl := Option.some.inj (hlast.symm.trans hlast')
    have hmem : last ∈ p.presentPlaces :=
      List.mem_of_getLast? (p.getLast?_presentPlaces.trans hlast)
    exact ⟨hstart, hstop.trans (Nat.max_eq_right (start_le_of_firstPresent? hfirst hmem))⟩

/-- The text of a place stops in front of its trailing trivia. -/
theorem stop_textSpan (p : Place) : p.textSpan.stop + p.trailingWidth = p.fullSpan.stop := by
  cases hp : p.element with
  | token t => exact stop_textSpan_of_token hp
  | node kind slots =>
    have hnode : p.isNode := by rw [isNode, hp]; rfl
    cases hlast : p.lastPresent? with
    | none =>
      have htrailing : p.trailingWidth = 0 := by simp [trailingWidth, hp, hlast]
      rcases p.textSpan_cases hnode with ⟨htext, hwidth, -⟩ | ⟨_, _, _, hsome, _⟩
      · rw [htext, htrailing, fullSpan, hwidth]
        rfl
      · rw [hlast] at hsome
        cases hsome
    | some last =>
      obtain ⟨u, hu⟩ := isToken_of_mem (mem_of_lastPresent? hlast)
      have htrailing : p.trailingWidth = last.trailingWidth := by
        simp [trailingWidth, hp, hlast, token?, hu]
      cases hfirst : p.firstPresent? with
      | none =>
        rw [lastPresent?_eq_none.mpr (firstPresent?_eq_none.mp hfirst)] at hlast
        cases hlast
      | some first =>
        rw [(textSpan_of_present hnode hfirst hlast).2, htrailing, stop_textSpan_of_token hu,
          stop_of_lastPresent? hlast]

/-- Where the text of a place is, and how wide its trivia. -/
structure Delimited (p : Place) : Prop where
  present : ∀ first last, p.presentTokens.head? = some first →
    p.presentTokens.getLast? = some last →
      p.textSpan.start = first.textSpan.start ∧ p.textSpan.stop = last.textSpan.stop
  absent : p.presentTokens = [] → p.textSpan = Span.emptyAt p.position
  widths : p.leadingWidth + p.width + p.trailingWidth = p.fullWidth
  /-- The trailing trivia can be taken off the end of the full span. -/
  subtracts : p.trailingWidth ≤ p.fullSpan.stop

theorem delimited (p : Place) : p.Delimited where
  present first last hfirst hlast := by
    rw [presentTokens_eq] at hfirst hlast
    cases hp : p.element with
    | token t =>
      have hself : p.presentPlaces ⊆ [p] := by
        rw [presentPlaces, tokenPlaces_token hp]
        exact List.filter_subset_self _
      obtain rfl := List.mem_singleton.mp (hself (List.mem_of_head? hfirst))
      obtain rfl := List.mem_singleton.mp (hself (List.mem_of_getLast? hlast))
      exact ⟨rfl, rfl⟩
    | node kind slots =>
      rw [head?_presentPlaces] at hfirst
      rw [getLast?_presentPlaces] at hlast
      exact textSpan_of_present (by rw [isNode, hp]; rfl) hfirst hlast
  absent hnone := by
    rw [presentTokens_eq] at hnone
    cases hp : p.element with
    | token t =>
      rw [presentPlaces, tokenPlaces_token hp] at hnone
      rw [textSpan_of_token hp]
      cases t with
      | missing kind => rfl
      | present => simp [token?, hp, Token.isPresent, Token.isMissing] at hnone
    | node kind slots =>
      rcases p.textSpan_cases (by rw [isNode, hp]; rfl) with ⟨htext, -⟩ | ⟨first, _, hfirst, _⟩
      · exact htext
      · rw [← head?_presentPlaces, hnone] at hfirst
        cases hfirst
  widths := by
    have hstart := p.start_textSpan
    have hstop := p.stop_textSpan
    have hle := p.textSpan.start_le_stop
    rw [fullSpan, Span.stop_ofWidth] at hstop
    rw [width, Span.width]
    omega
  subtracts := by
    rw [← p.stop_textSpan]
    exact Nat.le_add_left _ _

end Place

/-! ## Texts of a parse -/

/-- The token of lexemes that have text has text. -/
theorem Piece.width_pos {p : Piece} (hp : p.token.isPresent) (h : ∀ l ∈ p.lexemes, l.text ≠ []) :
    0 < p.token.width := by
  cases p with
  | missing kind => cases hp
  | run kind first more =>
    have hfirst := Text.width_pos (h first List.mem_cons_self)
    cases more with
    | nil => exact hfirst
    | cons next more =>
      simp only [token, Token.width, joinedText, Text.width_append]
      omega

/-- A token below two slots, the second of which holds a token, is that token or below the first. -/
theorem Slots.mem_tokenPlaces_pair {first : Option Element} {final t : Token} {q : Place}
    (hq : q ∈ (Slots.ofList [first, some (.token final)]).tokenPlaces [] 0 0)
    (ht : q.element = .token t) : q.path = [1] ∨ ∃ e ∈ first, t ∈ e.tokens := by
  cases first with
  | none => exact .inl (congrArg Place.path (List.mem_singleton.mp hq))
  | some e =>
    rcases List.mem_append.mp hq with hq | hq
    · have helement := List.mem_map_of_mem (f := Place.element) hq
      rw [SyntaxTree.map_element_tokenPlaces, ht, List.mem_map] at helement
      obtain ⟨u, hu, ⟨⟩⟩ := helement
      exact .inr ⟨e, rfl, hu⟩
    · exact .inl (congrArg Place.path (List.mem_singleton.mp hq))

/-- The present tokens of a parse have text, but for the final one, which is in a slot of the root. -/
theorem width_pos_of_parse {text : Text} {q : Place} {t : Token}
    (hq : q ∈ (parse text).tree.tokens) (ht : q.element = .token t) (hpresent : t.isPresent) :
    q.path = [1] ∨ 0 < t.width := by
  obtain ⟨pieces, hpieces, hbody, -⟩ := draftOf_pieces text
  obtain ⟨items, hvalue, -⟩ := draftOf_reading (Lexemes.scan text)
  have hslots : (parse text).tree.slots
      = Slots.ofList [(Draft.list items).map Draft.element,
        some (.token (Piece.run .eof (Lexemes.scan text).final []).token)] := by
    show (Slots.ofList (draftOf (Lexemes.scan text)).value).map id Piece.token = _
    rw [hvalue]
    cases Draft.list items <;> rfl
  have hmem : q ∈ (parse text).tree.slots.tokenPlaces [] 0 0 := hq
  rw [hslots] at hmem
  refine (Slots.mem_tokenPlaces_pair hmem ht).imp_right fun ⟨e, he, hte⟩ => ?_
  obtain ⟨d, hd, rfl⟩ := Option.map_eq_some_iff.mp he
  rw [Draft.element, Tree.tokens_map] at hte
  obtain ⟨piece, hpiece, rfl⟩ := List.mem_map.mp hte
  have hin : piece ∈ pieces := by
    rw [hvalue, hd] at hpieces
    have hcancel : d.tokens = pieces := List.append_cancel_right hpieces
    exact hcancel ▸ hpiece
  refine Piece.width_pos hpresent fun l hl => ?_
  have hlexeme : l ∈ (Lexemes.scan text).body := hbody ▸ List.mem_flatMap_of_mem hin hl
  exact Lexemes.text_ne_nil_scanFrom 0 text l hlexeme

/-! ### Characters and trivia -/

namespace Text

variable {text m : Text} {s t : Span}

theorem exists_slice (h : text.Sliceable s) : ∃ m, text.slice? s = some m :=
  Option.isSome_iff_exists.mp (sliceable_iff.mp h)

/-- The first character of a span lies in any span in front of it that is not empty. -/
theorem exists_first (hs : text.Sliceable s) (ht : text.Sliceable t) (hstart : t.start = s.start)
    (hstop : s.stop ≤ t.stop) (hfilled : s.start < s.stop) :
    ∃ c rest, text.slice? t = some (c :: rest) ∧
      (Span.ofWidth t.start c.utf8Size).Within s := by
  obtain ⟨m, hm⟩ := exists_slice hs
  obtain ⟨behind, hbehind⟩ := exists_slice (s := ⟨s.stop, t.stop, hstop⟩) ⟨hs.2, ht.2⟩
  have hwhole := slice?_join (u := t) hm hbehind rfl hstart rfl
  have hwidth : width m = s.stop - s.start := width_of_slice? hm
  cases m with
  | nil =>
    rw [width_nil] at hwidth
    omega
  | cons c rest =>
    rw [width_cons] at hwidth
    refine ⟨c, rest ++ behind, hwhole, Nat.le_of_eq hstart.symm, ?_⟩
    rw [Span.stop_ofWidth]
    omega

/-- The last character of a span lies in any span at its end that is not empty. -/
theorem exists_last (hs : text.Sliceable s) (ht : text.Sliceable t) (hstart : t.start ≤ s.start)
    (hstop : t.stop = s.stop) (hfilled : s.start < s.stop) :
    ∃ front c, text.slice? t = some (front ++ [c]) ∧
      (Span.ofWidth (t.start + width front) c.utf8Size).Within s := by
  obtain ⟨before, hbefore⟩ := exists_slice (s := ⟨t.start, s.start, hstart⟩) ⟨ht.1, hs.1⟩
  obtain ⟨m, hm⟩ := exists_slice hs
  have hwhole := slice?_join (u := t) hbefore hm rfl rfl hstop
  have hwidth : width m = s.stop - s.start := width_of_slice? hm
  have hwidth' : width before = s.start - t.start := width_of_slice? hbefore
  rcases List.eq_nil_or_concat' m with rfl | ⟨front, c, rfl⟩
  · rw [width_nil] at hwidth
    omega
  · rw [width_append, width_cons, width_nil] at hwidth
    rw [← List.append_assoc] at hwhole
    refine ⟨before ++ front, c, hwhole, ?_⟩
    rw [width_append, Span.Within, Span.start_ofWidth, Span.stop_ofWidth]
    omega

end Text

namespace SyntaxTree

variable {tree : SyntaxTree} {p q : Place} {s : Span}

/-- Whether a span meets no trivia of a tree. -/
def OffTrivia (tree : SyntaxTree) (s : Span) : Prop :=
  ∀ q ∈ tree.tokens, ∀ t ∈ q.trivia, s.Apart t.span

theorem apart_of_ne {r : Place} (hq : q ∈ tree.tokens) (hr : r ∈ tree.tokens) (hne : q ≠ r) :
    q.fullSpan.Apart r.fullSpan := by
  have hordered : tree.tokens.Pairwise fun a b => a.fullSpan.Apart b.fullSpan :=
    tree.root.contiguous.pairwise.imp Span.Before.apart
  have : Std.Symm fun a b : Place => a.fullSpan.Apart b.fullSpan := ⟨fun _ _ => Span.Apart.symm⟩
  exact hordered.forall hq hr hne

/-- What lies in the text of a token is off all trivia. -/
theorem offTrivia_of_within (hq : q ∈ tree.tokens) (hs : s.Within q.textSpan) :
    tree.OffTrivia s := by
  intro r hr t ht
  obtain ⟨u, hu⟩ := Place.isToken_of_mem (p := tree.root) hr
  obtain ⟨hwithin, hbeside⟩ := Place.trivia_of_mem_token hu ht
  by_cases hne : q = r
  · subst hne
    rcases hbeside with hfront | hbehind
    · exact .inr (Nat.le_trans hfront hs.1)
    · exact .inl (Nat.le_trans hs.2 hbehind)
  · exact (apart_of_ne hq hr hne).mono (hs.trans q.textSpan_within) hwithin

/-- Whether the text of a place is there, and starts and stops with characters of no trivia. -/
structure Trimmed (tree : SyntaxTree) (p : Place) : Prop where
  filled : p.textSpan.start < p.textSpan.stop
  first : ∃ c rest, tree.slice? p.textSpan = some (c :: rest) ∧
    tree.OffTrivia (Span.ofWidth p.textSpan.start c.utf8Size)
  last : ∃ front c, tree.slice? p.textSpan = some (front ++ [c]) ∧
    tree.OffTrivia (Span.ofWidth (p.textSpan.start + Text.width front) c.utf8Size)

/-- Below a node that is not the root, present tokens of a parse have text. -/
theorem filled_of_parse {text : Text} (hp : (parse text).tree.Has p) (hn : p.isNode)
    (hk : p.kind ≠ .document) (hq : q ∈ p.presentPlaces) : q.textSpan.start < q.textSpan.stop := by
  obtain ⟨hmem, hpresent⟩ := List.mem_filter.mp hq
  obtain ⟨t, ht⟩ := Place.isToken_of_mem hmem
  have htoken := hp.tokenPlaces_subset hmem
  rw [Place.token?, ht] at hpresent
  rw [Place.textSpan_of_token ht]
  rcases width_pos_of_parse htoken ht hpresent with hpath | hpos
  · -- the final token is below the root and below itself
    have hprefix := Tree.prefix_of_mem_tokenPlaces p.path p.position p.element hmem
    rw [hpath] at hprefix
    unfold Has at hp
    match hown : p.path with
    | [] =>
      rw [hown] at hp
      cases hp
      exact absurd rfl hk
    | i :: rest =>
      rw [hown, List.cons_prefix_cons, List.prefix_nil] at hprefix
      obtain ⟨rfl, rfl⟩ := hprefix
      obtain ⟨hhas, hnot⟩ := mem_tokens.mp htoken
      unfold Has at hhas
      rw [hown] at hp
      rw [hpath, hp] at hhas
      cases hhas
      rw [hnot] at hn
      cases hn
  · exact Nat.lt_add_of_pos_right hpos

/-- The text of a node of a parse is trimmed, whatever is missing at its ends. -/
theorem trimmed_parse {text : Text} (hp : (parse text).tree.Has p) (hn : p.isNode)
    (hk : p.kind ≠ .document) (hpresent : p.presentPlaces ≠ []) : (parse text).tree.Trimmed p := by
  obtain ⟨first, last, hfirst, hlast⟩ :
      ∃ first last, p.presentPlaces.head? = some first ∧ p.presentPlaces.getLast? = some last :=
    ⟨_, _, List.head?_eq_some_head hpresent, List.getLast?_eq_some_getLast hpresent⟩
  have hmem := List.mem_of_head? hfirst
  have hmem' := List.mem_of_getLast? hlast
  rw [Place.head?_presentPlaces] at hfirst
  rw [Place.getLast?_presentPlaces] at hlast
  obtain ⟨hstarts, hstops⟩ := Place.textSpan_mono hfirst hmem'
  obtain ⟨hstart, hstop⟩ := Place.textSpan_of_present hn hfirst hlast
  have htoken {q : Place} (hq : q ∈ p.presentPlaces) : q ∈ (parse text).tree.tokens :=
    hp.tokenPlaces_subset (List.mem_of_mem_filter hq)
  have hsliceable {q : Place} (hq : q ∈ p.presentPlaces) :
      (parse text).tree.text.Sliceable q.textSpan :=
    (readable_parse text).text q (mem_tokens.mp (htoken hq)).1
  have hwhole := (readable_parse text).text p hp
  have hfilled := filled_of_parse hp hn hk hmem
  have hfilled' := filled_of_parse hp hn hk hmem'
  obtain ⟨c, rest, hslice, hc⟩ :=
    Text.exists_first (hsliceable hmem) hwhole hstart (hstop ▸ hstops) hfilled
  obtain ⟨front, d, hslice', hd⟩ :=
    Text.exists_last (hsliceable hmem') hwhole (hstart ▸ hstarts) hstop hfilled'
  exact ⟨by omega, ⟨c, rest, hslice, offTrivia_of_within (htoken hmem) hc⟩,
    ⟨front, d, hslice', offTrivia_of_within (htoken hmem') hd⟩⟩

end SyntaxTree

/-- The text of a place lies between its trivia, from the first present token to the last one. In a
parse the text of a node that has any is trimmed, but for the root, whose last token has no text. -/
theorem Place.extents (p : Place) :
    p.Delimited ∧ ∀ text, (parse text).tree.Has p → p.isNode → p.kind ≠ .document →
      p.presentTokens ≠ [] → (parse text).tree.Trimmed p := by
  refine ⟨p.delimited, fun text hp hn hk hpresent => ?_⟩
  rw [presentTokens_eq] at hpresent
  exact SyntaxTree.trimmed_parse hp hn hk hpresent

/-- A rule with trivia in front of it, and without a semicolon. -/
theorem Place.extents_small : ∃ p, (parse "a\x7b b:c /**/".toList).tree.Has p ∧ p.kind = .rule ∧
    p.presentTokens ≠ [] ∧ (parse "a\x7b b:c /**/".toList).tree.Trimmed p := by
  have hrule : ((parse "a\x7b b:c /**/".toList).tree.at? [0, 0, 1, 1, 0]).any fun p =>
      p.isNode && p.kind = .rule && p.presentTokens.length = 3 := by
    decide +kernel
  obtain ⟨p, hp, hrule⟩ := (Option.any_eq_true _ _).mp hrule
  simp only [Bool.and_eq_true, decide_eq_true_eq] at hrule
  obtain ⟨⟨hnode, hkind⟩, hlength⟩ := hrule
  have hhas := SyntaxTree.has_of_at? hp
  have hpresent : p.presentTokens ≠ [] := List.ne_nil_of_length_pos (by omega)
  exact ⟨p, hhas, hkind, hpresent,
    p.extents.2 _ hhas hnode (by rw [hkind]; exact nofun) hpresent⟩

end Stylesheet
