import Stylesheet.Proofs.Finished
import Stylesheet.Proofs.Spans

/-!
# Reading a finished tree

A finished tree is read by cutting spans out of its text. `Builder.finish` looks at one sort of span
only: the text of each token has to start and stop between characters. The other spans are sums of
widths that nobody has looked at, and a border between two pieces of trivia may split a character.

**Borders.** Full spans start and stop where some token does, and a token's full span stops with its
last piece of trivia, or with its text if there is none. So the trivia decides about everything.

Results:
* `Place.sliceable_fullSpan`: a token whose text and trivia can be cut out can be cut out whole.
* `SyntaxTree.readable_iff`: in a tree with token texts that can be cut out, all of it can be read
  when each piece of trivia can be cut out.
* `Builder.finish_framed`: what is sure of a finished tree; `Builder.finish_splits`: what is not.
-/
namespace Stylesheet

/-! ## Borders -/

section Borders

variable {text : Text} {owner p : Place} {ps : List Place} {position start stop : Nat}
  {pieces : List Trivia}

namespace TriviaPlace

theorem isBoundary_start (h : ∀ t ∈ sequence owner position pieces, text.Sliceable t.span)
    (hstop : text.isBoundary (position + Trivia.totalWidth pieces)) :
    text.isBoundary position := by
  cases pieces with
  | nil => exact hstop
  | cons piece rest => exact (h _ List.mem_cons_self).1

theorem isBoundary_stop (h : ∀ t ∈ sequence owner position pieces, text.Sliceable t.span)
    (hstart : text.isBoundary position) :
    text.isBoundary (position + Trivia.totalWidth pieces) := by
  induction pieces generalizing position with
  | nil => exact hstart
  | cons piece rest ih =>
    have hpiece : text.isBoundary (position + piece.width) := (h _ List.mem_cons_self).2
    have hrest := ih (fun t ht => h t (List.mem_cons_of_mem _ ht)) hpiece
    rwa [Trivia.totalWidth, ← Nat.add_assoc]

end TriviaPlace

/-- A token whose text and trivia can be cut out can be cut out whole. -/
theorem Place.sliceable_fullSpan {t : Token} (hp : p.element = .token t)
    (htext : text.Sliceable p.textSpan) (htrivia : ∀ s ∈ p.trivia, text.Sliceable s.span) :
    text.Sliceable p.fullSpan := by
  rw [trivia_of_token hp] at htrivia
  have hleading := fun s hs => htrivia s (List.mem_append_left _ hs)
  have htrailing := fun s hs => htrivia s (List.mem_append_right _ hs)
  obtain ⟨hstart, hstop⟩ := htext
  refine ⟨?_, ?_⟩
  · apply TriviaPlace.isBoundary_start hleading
    rwa [textSpan_of_token hp] at hstart
  · have hend := TriviaPlace.isBoundary_stop htrailing hstop
    rw [textSpan_of_token hp, Span.stop_ofWidth, Nat.add_assoc, Nat.add_assoc] at hend
    rw [fullSpan, Span.stop_ofWidth, fullWidth_token hp, Token.fullWidth, Nat.add_assoc]
    exact hend

/-- Tokens end to end, each of which stops between characters, stop between characters. -/
theorem Place.Contiguous.isBoundary (h : Contiguous start stop ps)
    (hstart : text.isBoundary start) (hps : ∀ p ∈ ps, text.isBoundary p.fullSpan.stop) :
    text.isBoundary stop := by
  induction ps generalizing start with
  | nil => rwa [← show start = stop from h]
  | cons p ps ih =>
    obtain ⟨hposition, hrest⟩ := h
    have hp := hps p List.mem_cons_self
    rw [fullSpan, Span.stop_ofWidth, hposition] at hp
    exact ih hrest hp fun q hq => hps q (List.mem_cons_of_mem _ hq)

/-- What stands in the slots of a node starts between characters. -/
theorem Slots.isBoundary_of_mem {path : List Nat} {index position : Nat} {s : Slots Kind Token}
    (hstart : text.isBoundary position)
    (htokens : ∀ t ∈ s.tokenPlaces path index position, text.isBoundary t.fullSpan.stop)
    (h : some p ∈ s.places path index position) : text.isBoundary p.position := by
  cases s with
  | nil => cases h
  | empty rest =>
    rw [places, List.mem_cons] at h
    exact rest.isBoundary_of_mem hstart htokens (h.resolve_left (Option.some_ne_none p))
  | filled e rest =>
    rw [tokenPlaces] at htokens
    rw [places, List.mem_cons] at h
    rcases h with h | h
    · cases h
      exact hstart
    · have hborder : text.isBoundary (position + e.fullWidth) :=
        (e.contiguous (path ++ [index]) position).isBoundary hstart
          fun t ht => htokens t (List.mem_append_left _ ht)
      exact rest.isBoundary_of_mem hborder (fun t ht => htokens t (List.mem_append_right _ ht)) h

end Borders

/-! ## Whole trees -/

/-- The trivia of a place is that of its tokens. -/
theorem Place.mem_trivia {p : Place} {s : TriviaPlace} (h : s ∈ p.trivia) :
    ∃ q ∈ p.tokenPlaces, s ∈ q.trivia := by
  cases hp : p.element with
  | token t =>
    refine ⟨p, ?_, h⟩
    rw [tokenPlaces, hp, Tree.tokenPlaces, ← hp]
    exact List.mem_singleton_self _
  | node kind slots =>
    rw [trivia, List.mem_append] at h
    rcases h with h | h
    · cases hfirst : p.firstPresent? with
      | none => simp [leadingTrivia?, hp, hfirst] at h
      | some first =>
        have hmem := mem_of_firstPresent? hfirst
        obtain ⟨t, ht⟩ := isToken_of_mem hmem
        refine ⟨first, hmem, ?_⟩
        rw [trivia_of_token ht, List.mem_append]
        exact .inl (by simpa [leadingTrivia?, hp, hfirst, token?, ht] using h)
    · cases hlast : p.lastPresent? with
      | none => simp [trailingTrivia?, hp, hlast] at h
      | some last =>
        have hmem := mem_of_lastPresent? hlast
        obtain ⟨t, ht⟩ := isToken_of_mem hmem
        refine ⟨last, hmem, ?_⟩
        rw [trivia_of_token ht, List.mem_append]
        exact .inr (by simpa [trailingTrivia?, hp, hlast, token?, ht] using h)

namespace SyntaxTree

variable {tree : SyntaxTree} {p : Place}

/-- Everything in a tree can be cut out of its text. -/
structure Readable (tree : SyntaxTree) : Prop where
  text : ∀ p, tree.Has p → tree.text.Sliceable p.textSpan
  full : ∀ p, tree.Has p → tree.text.Sliceable p.fullSpan
  trivia : ∀ p, tree.Has p → ∀ s ∈ p.trivia, tree.text.Sliceable s.span

/-- The texts of the tokens of a tree can be cut out of its text. -/
def Lexed (tree : SyntaxTree) : Prop := ∀ p ∈ tree.tokens, tree.text.Sliceable p.textSpan

theorem isBoundary_position (htokens : ∀ t ∈ tree.tokens, tree.text.isBoundary t.fullSpan.stop)
    (hp : tree.Has p) : tree.text.isBoundary p.position := by
  refine Has.induct (P := fun p => tree.text.isBoundary p.position) ?_ ?_ hp
  · exact Text.isBoundary_iff.mpr ⟨[], tree.text, rfl, rfl⟩
  · intro q p hq hposition hslot
    refine q.element.slots.isBoundary_of_mem hposition (fun t ht => htokens t ?_) hslot
    apply hq.tokenPlaces_subset
    cases he : q.element with
    | token u => rw [he] at ht; cases ht
    | node kind slots => rw [he] at ht; exact ht

/-- The text of a place with a present token can be cut out as the texts of its tokens can. -/
theorem Lexed.sliceable_textSpan (h : tree.Lexed) (hp : tree.Has p)
    (hpresent : p.isNode → p.firstPresent?.isSome) : tree.text.Sliceable p.textSpan := by
  cases hnode : p.isNode with
  | false => exact h p (mem_tokens.mpr ⟨hp, hnode⟩)
  | true =>
    rcases p.textSpan_cases hnode with ⟨-, -, hnone⟩ | hends
    · rw [hnone] at hpresent
      cases hpresent hnode
    · obtain ⟨first, last, hfirst, hlast, hstart, hstop⟩ := hends
      have htext := h first (hp.tokenPlaces_subset (Place.mem_of_firstPresent? hfirst))
      have htext' := h last (hp.tokenPlaces_subset (Place.mem_of_lastPresent? hlast))
      refine ⟨by rw [hstart]; exact htext.1, ?_⟩
      rw [hstop]
      rcases Nat.le_total first.textSpan.start last.textSpan.stop with hle | hle
      · rw [Nat.max_eq_right hle]
        exact htext'.2
      · rw [Nat.max_eq_left hle]
        exact htext.1

/-- Where the texts of tokens can be cut out, trivia decides whether everything can. -/
theorem readable_iff (h : tree.Lexed) :
    tree.Readable ↔ ∀ p ∈ tree.tokens, ∀ s ∈ p.trivia, tree.text.Sliceable s.span := by
  constructor
  · exact fun hreadable p hp => hreadable.trivia p (mem_tokens.mp hp).1
  · intro htrivia
    have htokens (p : Place) (hp : p ∈ tree.tokens) : tree.text.Sliceable p.fullSpan := by
      obtain ⟨t, ht⟩ := Place.isToken_of_mem (p := tree.root) hp
      exact Place.sliceable_fullSpan ht (h p hp) (htrivia p hp)
    have hposition (p : Place) (hp : tree.Has p) : tree.text.isBoundary p.position :=
      isBoundary_position (fun t ht => (htokens t ht).2) hp
    refine ⟨fun p hp => ?_, fun p hp => ⟨hposition p hp, ?_⟩, fun p hp s hs => ?_⟩
    · by_cases hpresent : p.isNode → p.firstPresent?.isSome
      · exact h.sliceable_textSpan hp hpresent
      · -- without a present token, the text is empty and stands where the place does
        obtain ⟨hnode, hnone⟩ := Classical.not_imp.mp hpresent
        rcases p.textSpan_cases hnode with ⟨htext, -, -⟩ | ⟨first, _, hfirst, _⟩
        · rw [htext]
          exact ⟨hposition p hp, hposition p hp⟩
        · rw [hfirst] at hnone
          exact absurd rfl hnone
    · exact p.contiguous.isBoundary (hposition p hp)
        fun q hq => (htokens q (hp.tokenPlaces_subset hq)).2
    · obtain ⟨q, hq, hmem⟩ := Place.mem_trivia hs
      exact htrivia q (hp.tokenPlaces_subset hq) s hmem

end SyntaxTree

/-! ## Finished trees -/

namespace Builder

variable {b : Builder} {a : Arena} {made : List Call} {text : Text} {root : Nat}

/-- The token texts of a finished tree were looked at when the tree was placed. -/
theorem Sound.lexed (hb : b.Sound made) (hf : b.finish text root = .ok a) : a.tree.Lexed := by
  have hwhole := hb.whole hf
  obtain ⟨hready, hplaced⟩ := hb.placed_of_finish hf
  intro p hp
  obtain ⟨hhas, hnode⟩ := SyntaxTree.mem_tokens.mp hp
  unfold SyntaxTree.Has at hhas
  rw [hwhole.view] at hhas
  obtain ⟨x, -, hx⟩ := Option.bind_eq_some_iff.mp hhas
  obtain ⟨position, e, hposition, he, hplace⟩ := Arena.place?_eq_some.mp hx
  have hsame : a.unplaced = b.unplaced := hplaced.unplaced
  rw [eq_of_unplaced element?_unplaced hsame] at he
  have hmade : b.made x := made_iff_element?.mpr (Option.isSome_iff_exists.mpr ⟨e, he⟩)
  -- the element was placed where it is stored to stand
  obtain ⟨start, hmem⟩ := hb.exists_located hready.held hmade
  have hstart := hplaced.position x start hmem
  obtain rfl : position = start := Option.some.inj (hposition.symm.trans hstart)
  cases x with
  | node n =>
    obtain ⟨kind, xs, hn⟩ := exists_shape hmade
    rw [hb.formed.element?_node hn] at he
    cases he
    rw [hplace] at hnode
    cases hnode
  | token n =>
    obtain ⟨t, ht⟩ := exists_token hmade
    rw [element?_token ht] at he
    cases he
    have helement : p.element = .token t := congrArg Place.element hplace
    have hparted := hplaced.parted n position t hmem ht
    have htext : a.tree.text = text := a.text_tree.trans hplaced.text
    rw [Place.textSpan_of_token helement, hplace, htext]
    exact hparted

/-- What is sure of the spans of a finished tree: none goes past the text, texts and trivia lie in
full spans, and the texts of tokens and of what has a present token split no character. Everything
can be read if no piece of trivia splits one. -/
structure Framed (text : Text) (a : Arena) : Prop where
  kept : a.tree.text = text
  /-- What is read of an element starts where the element is stored to stand. -/
  view : ∀ path, a.tree.at? path = (a.at? path).bind (a.place? path)
  full : ∀ p, a.tree.Has p → p.fullSpan.stop ≤ Text.width text
  inside : ∀ p, a.tree.Has p →
    p.textSpan.Within p.fullSpan ∧ ∀ s ∈ p.trivia, s.span.Within p.fullSpan
  tokens : ∀ p ∈ a.tree.tokens, text.Sliceable p.textSpan
  nodes : ∀ p, a.tree.Has p → p.firstPresent?.isSome → text.Sliceable p.textSpan
  readable : a.tree.Readable ↔ ∀ p ∈ a.tree.tokens, ∀ s ∈ p.trivia, text.Sliceable s.span
  slices : ∀ s, text.Sliceable s ↔ (a.tree.slice? s).isSome

theorem finish_framed (hb : empty.calls made = .ok b) (hf : b.finish text root = .ok a) :
    Framed text a := by
  have hsound := sound_empty.calls hb
  have hlexed := hsound.lexed hf
  have hwhole := hsound.whole hf
  have hkept : a.tree.text = text := a.text_tree.trans hwhole.source
  subst hkept
  refine ⟨rfl, hwhole.view, fun p hp => ?_, fun p hp => ⟨p.textSpan_within, fun s hs => ?_⟩, hlexed,
    fun p hp hpresent => hlexed.sliceable_textSpan hp fun _ => hpresent,
    SyntaxTree.readable_iff hlexed, fun _ => Text.sliceable_iff⟩
  · have hstop := hp.fullSpan_within_root.2
    have hwidth : a.tree.slots.fullWidth = Text.width a.tree.text := hsound.fullWidth_tree hf
    rwa [SyntaxTree.stop_fullSpan_root, hwidth] at hstop
  · obtain ⟨q, hq, hmem⟩ := Place.mem_trivia hs
    obtain ⟨t, ht⟩ := Place.isToken_of_mem hq
    exact (Place.trivia_of_mem_token ht hmem).1.trans (Place.fullSpan_within_of_mem hq)

theorem finish_framed_small : ∃ b a, empty.calls smallCalls = .ok b ∧
    b.finish "a : b".toList 1 = .ok a ∧ Framed "a : b".toList a := by
  obtain ⟨b, a, hb, hf⟩ := exists_finished smallCalls "a : b".toList 1
    (by decide +kernel)
  exact ⟨b, a, hb, hf, finish_framed hb hf⟩

/-- Calls for two tokens whose trivia meets within a character of two bytes. -/
def splittingCalls : List Call :=
  [.token [] .identifier 1 [⟨.whitespace, 1⟩], .token [⟨.whitespace, 1⟩] .identifier 1 [],
    .node .list [some (.token 0), some (.token 1)]]

/-- A tree can be finished although its trivia splits a character: neither a token with its trivia
nor a piece of trivia is read then. -/
theorem finish_splits : ∃ b a p, empty.calls splittingCalls = .ok b ∧
    b.finish "aéb".toList 0 = .ok a ∧ a.tree.Has p ∧ a.tree.slice? p.fullSpan = none ∧
      (∃ s ∈ p.trivia, a.tree.slice? s.span = none) ∧ ¬a.tree.Readable := by
  obtain ⟨b, a, hb, hf⟩ := exists_finished splittingCalls "aéb".toList 0 (by decide +kernel)
  have hrun : (((empty.calls splittingCalls).bind fun b => b.finish "aéb".toList 0).toOption.bind
      fun a => (a.tree.at? [0]).map fun p => (a.tree.slice? p.fullSpan).isNone &&
        p.trivia.any fun s => (a.tree.slice? s.span).isNone) = some true := by decide +kernel
  have hfinish : ((empty.calls splittingCalls).bind fun b => b.finish "aéb".toList 0) = .ok a := by
    rw [hb]
    exact hf
  rw [hfinish] at hrun
  obtain ⟨p, hp, hread⟩ := Option.map_eq_some_iff.mp hrun
  obtain ⟨hfull, htrivia⟩ : a.tree.slice? p.fullSpan = none ∧
      ∃ s ∈ p.trivia, a.tree.slice? s.span = none := by simpa using hread
  have hhas := SyntaxTree.has_of_at? hp
  refine ⟨b, a, p, hb, hf, hhas, hfull, htrivia, fun h => ?_⟩
  have hslice := Text.sliceable_iff.mp (h.full p hhas)
  rw [show Text.slice? a.tree.text p.fullSpan = none from hfull] at hslice
  cases hslice

end Builder

end Stylesheet
