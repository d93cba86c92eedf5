import Mathlib.Data.List.TakeWhile
import Stylesheet.Proofs.Joining.Drafts

/-!
# Style sheets in a row

A style sheet without errors can be written in front of any other one, with a line end between
them: both are read as they are read alone. The items of the first one come first, then those of
the second one, as many bytes further on as were written in front. Trivia behind the last item of
the first one, and the line end, belong to the first token of the second one.

Results:
* `parse_joined`: the tree and the diagnostics of two style sheets in a row.
-/
namespace Stylesheet

/-! ## Diagnostics -/

namespace Diagnostic

theorem pairwise_sorted (ds : List Diagnostic) :
    (sorted ds).Pairwise fun a b => a.span.start ≤ b.span.start := by
  have h := @List.pairwise_mergeSort Diagnostic (fun a b => a.span.start ≤ b.span.start)
    (by simp; omega) (by simp; omega) ds
  exact h.imp of_decide_eq_true

theorem takeWhile_append_of_neg {α : Type} {p : α → Bool} {ys : List α} (h : ∀ y ∈ ys, p y = false)
    (xs : List α) :
    (xs ++ ys).takeWhile p = xs.takeWhile p ∧ (xs ++ ys).dropWhile p = xs.dropWhile p ++ ys := by
  cases ys with
  | nil => simp
  | cons y ys =>
    have hy := h y (List.mem_cons_self ..)
    exact ⟨Cut.takeWhile_append_stop hy xs ys, Cut.dropWhile_append_stop hy xs ys⟩

/-- A diagnostic made first is sorted in front of those that start where it does. -/
theorem sorted_cons (d : Diagnostic) (ds : List Diagnostic) :
    sorted (d :: ds) = (sorted ds).takeWhile (·.span.start < d.span.start) ++
      d :: (sorted ds).dropWhile (·.span.start < d.span.start) := by
  obtain ⟨before, behind, hcons, hds, hbefore⟩ :=
    @List.mergeSort_cons Diagnostic (fun a b => a.span.start ≤ b.span.start)
      (by simp; omega) (by simp; omega) d ds
  have hcons : sorted (d :: ds) = before ++ d :: behind := hcons
  have hds : sorted ds = before ++ behind := hds
  have hpair := pairwise_sorted (d :: ds)
  rw [hcons] at hpair
  have hbehind : ∀ b ∈ behind, decide (b.span.start < d.span.start) = false := fun b hb => by
    simpa using (List.pairwise_cons.mp (List.pairwise_append.mp hpair).2.1).1 b hb
  have hbefore : ∀ b ∈ before, decide (b.span.start < d.span.start) = true := fun b hb => by
    simpa using hbefore b hb
  obtain ⟨htake, hdrop⟩ := takeWhile_append_of_neg hbehind before
  rw [hcons, hds, htake, hdrop, List.takeWhile_eq_self_iff.mpr hbefore,
    List.dropWhile_eq_nil_iff.mpr hbefore, List.nil_append]

theorem sorted_append {low high : List Diagnostic}
    (h : ∀ l ∈ low, ∀ d ∈ high, l.span.start < d.span.start) :
    sorted (low ++ high) = sorted low ++ sorted high := by
  induction low with
  | nil => simp [sorted]
  | cons l low ih =>
    have hhigh : ∀ d ∈ sorted high, decide (d.span.start < l.span.start) = false := fun d hd => by
      have := h l (List.mem_cons_self ..) d ((sorted_perm high).mem_iff.mp hd)
      simp
      omega
    obtain ⟨htake, hdrop⟩ := takeWhile_append_of_neg hhigh (sorted low)
    rw [List.cons_append, sorted_cons, ih fun l hl => h l (List.mem_cons_of_mem _ hl), htake, hdrop,
      sorted_cons]
    simp

/-- What starts in front of everything else is sorted for itself. -/
theorem sorted_insert {low high front : List Diagnostic}
    (h : ∀ l ∈ low, ∀ d ∈ front ++ high, l.span.start < d.span.start) :
    sorted (front ++ (low ++ high)) = sorted low ++ sorted (front ++ high) := by
  -- Each report of `front` goes behind all of `low`, wherever it goes among the others.
  induction front with
  | nil => exact sorted_append h
  | cons d front ih =>
    have hlow : ∀ l ∈ sorted low, decide (l.span.start < d.span.start) = true := fun l hl =>
      decide_eq_true (h l ((sorted_perm low).mem_iff.mp hl) d (List.mem_cons_self ..))
    rw [List.cons_append, sorted_cons, ih fun l hl d hd => h l hl d (List.mem_cons_of_mem _ hd),
      List.takeWhile_append_of_pos hlow, List.dropWhile_append_of_pos hlow, List.cons_append,
      sorted_cons, List.append_assoc]

theorem hasErrors_sorted (ds : List Diagnostic) : hasErrors (sorted ds) = hasErrors ds :=
  (sorted_perm ds).any_eq

theorem sorted_shift (bytes : Nat) (ds : List Diagnostic) :
    sorted (ds.map (·.shift bytes)) = (sorted ds).map (·.shift bytes) := by
  refine (List.map_mergeSort fun a _ b _ => ?_).symm
  simp [shift, Span.shift]

end Diagnostic

/-! ## Places -/

/-- A token as it stands in a text: the span of its text, and all that is written there, trivia
included. -/
structure Word where
  element : Element
  span : Span
  written : Option Text

namespace Word

/-- The word so many bytes further on. -/
def shift (bytes : Nat) (w : Word) : Word := { w with span := w.span.shift bytes }

/-- The word with more trivia in front of it. -/
def lead (gaps : List Gap) (w : Word) : Word :=
  { w with
    element := w.element.mapFirst (Token.lead (gaps.map Gap.trivia))
    written := w.written.map (Gap.textOf gaps ++ ·) }

/-- The words that pieces make, one after the other. -/
def row (offset : Nat) : List Piece → List Word
  | [] => []
  | p :: ps =>
    ⟨.token p.token, Span.ofWidth (offset + p.token.leadingWidth) p.token.width,
      some (Lexeme.textOf p.lexemes)⟩ :: row (offset + Lexeme.widthOf p.lexemes) ps

theorem row_append (offset : Nat) (ps qs : List Piece) :
    row offset (ps ++ qs)
      = row offset ps ++ row (offset + Lexeme.widthOf (ps.flatMap Piece.lexemes)) qs := by
  induction ps generalizing offset with
  | nil => rfl
  | cons p ps ih => simp [row, ih, Lexeme.widthOf_append, Nat.add_assoc]

theorem row_shift (offset bytes : Nat) (ps : List Piece) :
    row (offset + bytes) ps = (row offset ps).map (shift bytes) := by
  induction ps generalizing offset with
  | nil => rfl
  | cons p ps ih =>
    have hrest := ih (offset + Lexeme.widthOf p.lexemes)
    simp only [row, List.map_cons, Nat.add_right_comm offset bytes, hrest]
    congr 2
    simp [Span.ofWidth, Span.shift]
    omega

/-- Trivia in front of pieces is in front of the first word, whose text stands behind it. -/
theorem row_lead {ps : List Piece} (h : Piece.Open ps) (offset : Nat) (gaps : List Gap) :
    row offset (ps.modifyHead (Piece.lead gaps))
      = (row (offset + Text.width (Gap.textOf gaps)) ps).modifyHead (lead gaps) := by
  obtain ⟨kind, first, more, rest, rfl⟩ := h
  have hlexemes : (Piece.run kind first more).lexemes = first :: more := rfl
  have hled : (Piece.lead gaps (.run kind first more)).lexemes = first.lead gaps :: more := rfl
  have hfull : Lexeme.textOf (first.lead gaps :: more)
      = Gap.textOf gaps ++ Lexeme.textOf (first :: more) := by
    simp [Lexeme.textOf, Lexeme.fullText, Lexeme.lead, Gap.textOf]
  have hleading : (Token.lead (gaps.map Gap.trivia) (Piece.run kind first more).token).leadingWidth
      = Text.width (Gap.textOf gaps) + (Piece.run kind first more).token.leadingWidth := by
    rw [← Piece.totalWidth_gaps]
    exact Trivia.totalWidth_append ..
  have hwidth : (Token.lead (gaps.map Gap.trivia) (Piece.run kind first more).token).width
      = (Piece.run kind first more).token.width := rfl
  simp only [List.modifyHead_cons, row, lead, Piece.token_lead, hlexemes, hled, hfull, hleading,
    hwidth, Lexeme.widthOf, Lexeme.fullWidth_lead, ← Nat.add_assoc]
  rfl

end Word

/-- What stands at the place of a token of a tree. -/
def SyntaxTree.word (tree : SyntaxTree) (p : Place) : Word := ⟨p.element, p.textSpan, tree.written? p⟩

/-- The tokens of a tree as they stand in its text. -/
def SyntaxTree.words (tree : SyntaxTree) : List Word := tree.tokens.map tree.word

/-- Pieces one after the other make a row of words. -/
theorem Piece.words_tokens {tree : SyntaxTree} {ps : List Piece} {places : List Place}
    {before after : Text}
    (h : places.map Place.located
      = (Token.located (Text.width before) (ps.map token)).map (Prod.map id Tree.token))
    (ht : tree.text = before ++ (Lexeme.textOf (ps.flatMap lexemes) ++ after)) :
    places.map tree.word = Word.row (Text.width before) ps := by
  induction ps generalizing before places with
  | nil =>
    have hnil : places = [] := by simpa [Token.located] using h
    rw [hnil]
    rfl
  | cons p ps ih =>
    obtain ⟨q, rest, rfl, hq, hrest⟩ := List.map_eq_cons_iff.mp h
    have hwidth : Text.width before + p.token.fullWidth
        = Text.width (before ++ Lexeme.textOf p.lexemes) := by
      rw [fullWidth_token, Text.width_append, Lexeme.width_textOf]
    rw [List.flatMap_cons, Lexeme.textOf_append] at ht
    obtain ⟨hposition, helement⟩ := Prod.mk.inj hq
    have hword : tree.word q = ⟨.token p.token,
        Span.ofWidth (Text.width before + p.token.leadingWidth) p.token.width,
        some (Lexeme.textOf p.lexemes)⟩ := by
      have hwritten := written_token hq (by simpa using ht)
      have hspan := Place.textSpan_of_token helement
      rw [hposition] at hspan
      rw [SyntaxTree.word, hwritten, hspan, helement]
      rfl
    have htail := ih (hwidth ▸ hrest) (by simpa using ht)
    rw [List.map_cons, hword, htail, Word.row, Text.width_append, Lexeme.width_textOf]

theorem words_parse (text : Text) :
    (parse text).tree.words = Word.row 0 (Draft.piecesOf (draftOf (Lexemes.scan text)).value) := by
  refine @Piece.words_tokens _ _ _ [] [] (located_parse text) ?_
  rw [lexemes_draftOf, Lexemes.textOf_scan, List.append_nil]
  rfl

/-! ## Items -/

/-- The items of a document. -/
def SyntaxTree.items (tree : SyntaxTree) : List Place :=
  ((tree.root.child? 0).map Place.children).getD []

namespace Place

/-- Where elements end that follow one another. -/
def ends (position : Nat) : List Element → List Nat
  | [] => []
  | e :: es => (position + e.fullWidth) :: ends (position + e.fullWidth) es

theorem ends_append (position : Nat) (es fs : List Element) :
    ends position (es ++ fs)
      = ends position es ++ ends (position + Token.totalWidth (es.flatMap Tree.tokens)) fs := by
  induction es generalizing position with
  | nil => rfl
  | cons e es ih => simp [ends, ih, Tree.fullWidth_eq_totalWidth, Nat.add_assoc]

theorem ends_add (position bytes : Nat) (es : List Element) :
    ends (position + bytes) es = (ends position es).map (· + bytes) := by
  induction es generalizing position with
  | nil => rfl
  | cons e es ih => simp [ends, Nat.add_right_comm position bytes, ih]

/-- Trivia in front of the first element moves all ends alike. -/
theorem ends_lead {e : Element} {kind : Kind} {leading trailing : List Trivia} {width : Nat}
    {rest : List Token} (h : e.tokens = .present kind leading width trailing :: rest)
    (position : Nat) (trivia : List Trivia) (es : List Element) :
    ends position (e.mapFirst (Token.lead trivia) :: es)
      = ends (position + Trivia.totalWidth trivia) (e :: es) := by
  have hwidth : (e.mapFirst (Token.lead trivia)).fullWidth
      = Trivia.totalWidth trivia + e.fullWidth := by
    rw [Tree.fullWidth_eq_totalWidth, Tree.fullWidth_eq_totalWidth, Tree.tokens_mapFirst, h]
    simp [Token.lead, Token.totalWidth, Token.fullWidth, Token.leadingWidth, Token.leading,
      Token.width, Token.trailingWidth, Token.trailing, Nat.add_assoc]
  simp [ends, hwidth, Nat.add_assoc]

theorem ends_places (path : List Nat) (index position : Nat) (es : List Element) :
    ((Slots.places path index position (.ofList (es.map some))).filterMap id).map (·.fullSpan.stop)
      = ends position es := by
  induction es generalizing index position with
  | nil => rfl
  | cons e es ih =>
    exact congrArg (List.cons (position + e.fullWidth)) (ih (index + 1) (position + e.fullWidth))

end Place

/-- The items of a document end one after the other. -/
theorem SyntaxTree.ends_items {tree : SyntaxTree} {es : List Element} {final : Element}
    (h : tree.slots = .document es final) :
    tree.items.map (·.fullSpan.stop) = Place.ends 0 es := by
  obtain ⟨text, kind, slots⟩ := tree
  subst h
  cases es with
  | nil => rfl
  | cons e es => exact Place.ends_places [0] 0 0 (e :: es)

/-! ## Two style sheets -/

/-- The final token of a text. -/
def finalToken (text : Text) : Element :=
  .token (Piece.run .eof (Lexemes.scan text).final []).token

/-- The elements in the list of a text. -/
def elementsOf (text : Text) : List Element := (itemsOf text).value.map Draft.element

theorem slots_parse (text : Text) :
    (parse text).tree.slots = .document (elementsOf text) (finalToken text) := by
  show (draftSlots text).map id Piece.token = _
  rw [draftSlots_eq, Slots.map_document]
  rfl

theorem totalWidth_elementsOf (text : Text) :
    Token.totalWidth ((elementsOf text).flatMap Tree.tokens)
      = Lexeme.widthOf (Lexemes.scan text).body := by
  have htokens : (elementsOf text).flatMap Tree.tokens
      = ((itemsOf text).value.flatMap Tree.tokens).map Piece.token := by
    simp [elementsOf, Draft.element, List.flatMap_map, List.map_flatMap, Tree.tokens_map]
  rw [htokens, Piece.totalWidth_tokens, lexemes_itemsOf]

/-- Trivia in front of the first element of a text moves the ends of all of them. -/
theorem ends_elementsOf (position : Nat) (gaps : List Gap) (text : Text) :
    Place.ends position ((elementsOf text).modifyHead
        (Tree.mapFirst (Token.lead (gaps.map Gap.trivia))))
      = Place.ends (position + Text.width (Gap.textOf gaps)) (elementsOf text) := by
  have hopens : ∀ d ∈ (itemsOf text).value.head?, d.Opens :=
    Production.many_documentStep_opens (.ofLexemes (Lexemes.scan text))
  unfold elementsOf
  cases hvalue : (itemsOf text).value with
  | nil => rfl
  | cons d rest =>
    obtain ⟨kind, first, more, pieces, hd⟩ := hopens d (by rw [hvalue]; rfl)
    rw [← Piece.totalWidth_gaps]
    have htokens : d.element.tokens
        = (Piece.run kind first more).token :: pieces.map Piece.token := by
      rw [Draft.element, Tree.tokens_map, hd]
      rfl
    exact Place.ends_lead htokens position _ _

/-- A style sheet `b` read behind a style sheet `a` and a line end. -/
structure Joined (a b : Text) : Prop where
  /-- The items of the first one are followed by those of the second one. The trees are the same
  but for the first token of the second one: the trivia in front of the final token of the first
  one and the line end stand in front of it. -/
  slots : ∃ as bs final,
    (parse a).tree.slots = .document as (finalToken a) ∧
      (parse b).tree.slots.mapFirst (Token.lead ((Lexemes.scan a).gapsBehind.map Gap.trivia))
        = .document bs final ∧
      (parse (a ++ '\n' :: b)).tree.slots = .document (as ++ bs) final
  /-- Each item ends where it did, those of the second style sheet so many bytes further on. -/
  ends : (parse (a ++ '\n' :: b)).tree.items.map (·.fullSpan.stop)
    = (parse a).tree.items.map (·.fullSpan.stop) ++
      (parse b).tree.items.map (·.fullSpan.stop + (Text.width a + 1))
  /-- Token by token the same is written, the text of the second style sheet's tokens so many bytes
  further on. -/
  words : (parse (a ++ '\n' :: b)).tree.words = (parse a).tree.words.dropLast ++
    ((parse b).tree.words.map (Word.shift (Text.width a + 1))).modifyHead
      (Word.lead (Lexemes.scan a).gapsBehind)
  /-- The first token of the second style sheet is there to have the trivia in front of it. -/
  opens : (parse b).tree.words.head?.map (·.element.isMissing) = some false
  /-- What is wrong with the first one is followed by what is wrong with the second one. -/
  diagnostics : (parse (a ++ '\n' :: b)).diagnostics
    = (parse a).diagnostics ++ (parse b).diagnostics.map (·.shift (Text.width a + 1))

section

variable {a : Text} (h : Diagnostic.hasErrors (parse a).diagnostics = false)
  (hr : a.getLast? ≠ some '\r') (b : Text)

include h hr

theorem diagnostics_joined :
    (parse (a ++ '\n' :: b)).diagnostics
      = (parse a).diagnostics ++ (parse b).diagnostics.map (·.shift (Text.width a + 1)) := by
  obtain ⟨-, hreports, hbound⟩ := itemsOf_joined h hr b
  have hscan := scan_reports_of_hasErrors h
  have hmore : (Lexemes.scan (a ++ '\n' :: b)).reports
      = (Lexemes.scan b).reports.map (·.shift (Text.width a + 1)) := by
    rw [Lexemes.scan_append b hr (commentsClosed_of_hasErrors h), hscan, List.nil_append]
  rw [diagnostics_parse, diagnostics_parse, diagnostics_parse, hmore, hreports, hscan, List.nil_append,
    ← Diagnostic.sorted_shift, List.map_append]
  refine Diagnostic.sorted_insert fun l hl d hd => ?_
  have hle := hbound l hl
  rw [← List.map_append] at hd
  obtain ⟨d, -, rfl⟩ := List.mem_map.mp hd
  simp only [Diagnostic.shift, Span.shift]
  omega

theorem words_joined :
    (parse (a ++ '\n' :: b)).tree.words = (parse a).tree.words.dropLast ++
      ((parse b).tree.words.map (Word.shift (Text.width a + 1))).modifyHead
        (Word.lead (Lexemes.scan a).gapsBehind) := by
  have hmore := Word.row_shift 0 (Text.width a + 1)
    (Draft.piecesOf (draftOf (Lexemes.scan b)).value)
  rw [words_parse, words_parse, words_parse, pieces_joined h hr, Word.row_append, lexemes_itemsOf,
    Word.row_lead (open_draftOf b), ← hmore, Nat.add_assoc 0, Lexemes.width_gapsBehind,
    piecesOf_draftOf a, Word.row_append, Word.row, Word.row, List.dropLast_concat]

/-- The elements of the second text follow those of the first one. -/
theorem slots_joined :
    let front := Token.lead ((Lexemes.scan a).gapsBehind.map Gap.trivia)
    ∃ final, (parse b).tree.slots.mapFirst front
        = .document ((elementsOf b).modifyHead (Tree.mapFirst front)) final ∧
      (parse (a ++ '\n' :: b)).tree.slots
        = .document (elementsOf a ++ (elementsOf b).modifyHead (Tree.mapFirst front)) final := by
  intro front
  obtain ⟨final, hled, hwhole⟩ := draftSlots_joined h hr b
  have hfront : ((itemsOf b).value.modifyHead
      (Tree.mapFirst (Piece.lead (Lexemes.scan a).gapsBehind))).map Draft.element
        = (elementsOf b).modifyHead (Tree.mapFirst front) := by
    unfold elementsOf
    cases (itemsOf b).value with
    | nil => rfl
    | cons d rest =>
      exact congrArg (· :: rest.map Draft.element) (Tree.map_mapFirst id (Piece.token_lead _) d)
  refine ⟨final.map id Piece.token, ?_, ?_⟩
  · show ((draftSlots b).map id Piece.token).mapFirst front = _
    rw [← Slots.map_mapFirst id (Piece.token_lead _), hled, Slots.map_document, ← hfront]
    rfl
  · show (draftSlots (a ++ '\n' :: b)).map id Piece.token = _
    rw [hwhole, Slots.map_document, List.map_append, ← hfront]
    rfl

end

theorem parse_joined (a b : Text) (h : Diagnostic.hasErrors (parse a).diagnostics = false)
    (hr : a.getLast? ≠ some '\r') : Joined a b := by
  obtain ⟨final, hled, hwhole⟩ := slots_joined h hr b
  refine ⟨⟨_, _, final, slots_parse a, hled, hwhole⟩, ?_, words_joined h hr b, ?_,
    diagnostics_joined h hr b⟩
  · have hends := Place.ends_add 0 (Text.width a + 1) (elementsOf b)
    rw [← SyntaxTree.ends_items (slots_parse b), List.map_map] at hends
    rw [SyntaxTree.ends_items hwhole, SyntaxTree.ends_items (slots_parse a), Place.ends_append,
      totalWidth_elementsOf, ends_elementsOf, Nat.add_assoc 0, Lexemes.width_gapsBehind, hends]
    rfl
  · obtain ⟨kind, first, more, rest, hopen⟩ := open_draftOf b
    rw [words_parse, hopen]
    rfl

theorem parse_joined_small :
    Diagnostic.hasErrors (parse "a{b:c;} // d".toList).diagnostics = false ∧
      "a{b:c;} // d".toList.getLast? ≠ some '\r' ∧
      Joined "a{b:c;} // d".toList "/* e */ , f{g;} \x7d".toList := by
  have h : Diagnostic.hasErrors (parse "a{b:c;} // d".toList).diagnostics = false := by
    rw [parse, Diagnostic.hasErrors_sorted]
    decide +kernel
  have hr : "a{b:c;} // d".toList.getLast? ≠ some '\r' := by decide
  exact ⟨h, hr, parse_joined _ _ h hr⟩

end Stylesheet
