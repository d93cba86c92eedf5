import Mathlib.Data.List.Forall2
import Stylesheet.Proofs.Placing
import Stylesheet.Proofs.Reading.Sheets
import Stylesheet.Proofs.Scanning

/-!
# The tree holds the text, and nothing else

The tokens of a tree know widths only, so where one stands follows from the ones before it. Here
the places of a parse's tokens are tied to the places of the lexemes they were made from.

Results:
* `Place.Covers`: a token's place, made from a run of lexemes that know where they stand.
* `Piece.covers_groups`: pieces one after the other cover their lexemes, group by group.
* `parse_covers`: the present tokens of a parse cover the lexemes of its text, in order, and the
  tokens written one after the other are the text.
-/
namespace Stylesheet

/-! ## Lexemes and where they stand -/

namespace Piece

theorem lastOf_cons (first next : Lexeme) (more : List Lexeme) :
    lastOf first (next :: more) = lastOf next more := by
  simp [lastOf, List.getLast?_cons]

theorem getLast?_run (first : Lexeme) (more : List Lexeme) :
    (first :: more).getLast? = some (lastOf first more) := by
  rw [List.getLast?_cons]
  rfl

/-- What the first lexeme of a run has behind its leading trivia. -/
theorem textOf_run (first : Lexeme) (more : List Lexeme) :
    Lexeme.textOf (first :: more)
      = Gap.textOf first.leading ++ joinedText first more
        ++ Gap.textOf (lastOf first more).trailing := by
  induction more generalizing first with
  | nil => simp [Lexeme.textOf, Lexeme.fullText, joinedText, lastOf]
  | cons next more ih =>
    have hrest := ih next
    rw [lastOf_cons]
    simp only [Lexeme.textOf, List.flatMap_cons] at hrest ⊢
    rw [hrest]
    simp [Lexeme.fullText, joinedText]

theorem totalWidth_gaps (gaps : List Gap) :
    Trivia.totalWidth (gaps.map Gap.trivia) = Text.width (Gap.textOf gaps) := by
  induction gaps with
  | nil => rfl
  | cons g gaps ih => simp [Trivia.totalWidth, Gap.textOf, ih, Gap.trivia, Gap.width]

/-- A token has the width of its lexemes. -/
theorem fullWidth_token (p : Piece) : p.token.fullWidth = Lexeme.widthOf p.lexemes := by
  cases p with
  | missing => rfl
  | run kind first more =>
    have hwidth := congrArg Text.width (textOf_run first more)
    rw [Lexeme.width_textOf] at hwidth
    simp [token, lexemes, Token.fullWidth, Token.leadingWidth, Token.trailingWidth, Token.leading,
      Token.trailing, Token.width, totalWidth_gaps, hwidth,
      Nat.add_assoc]

end Piece

theorem Piece.totalWidth_tokens (ps : List Piece) :
    Token.totalWidth (ps.map Piece.token) = Lexeme.widthOf (ps.flatMap Piece.lexemes) := by
  induction ps with
  | nil => rfl
  | cons p ps ih =>
    simp [Token.totalWidth, Lexeme.widthOf_append, Piece.fullWidth_token, ih]

/-! ## Covering -/

/-- The last of a run of lexemes, each with the offset of its text. -/
def Lexeme.lastLocated (first : Nat × Lexeme) (more : List (Nat × Lexeme)) : Nat × Lexeme :=
  more.getLast?.getD first

/-- The token at a place is made from the lexemes of a group, each given with the offset of its
text: it has their first one's leading and their last one's trailing trivia, and its text goes from
the one's start to the other's end. -/
structure Place.CoversRun (p : Place) (first : Nat × Lexeme) (more : List (Nat × Lexeme)) :
    Prop where
  kind : Piece.Takes p.kind first.2 (more.map Prod.snd)
  leading : p.token?.map Token.leading = some (first.2.leading.map Gap.trivia)
  trailing : p.token?.map Token.trailing
    = some ((Lexeme.lastLocated first more).2.trailing.map Gap.trivia)
  start : p.textSpan.start = first.1
  stop : p.textSpan.stop
    = (Lexeme.lastLocated first more).1 + (Lexeme.lastLocated first more).2.width

/-- No group that is covered is empty. -/
def Place.Covers (p : Place) : List (Nat × Lexeme) → Prop
  | [] => False
  | first :: more => p.CoversRun first more

namespace Piece

/-- The lexemes of pieces that start at an offset, a group for each run. -/
def groups (offset : Nat) : List Piece → List (List (Nat × Lexeme))
  | [] => []
  | .missing _ :: ps => groups offset ps
  | .run _ first more :: ps =>
    Lexeme.located offset (first :: more) :: groups (offset + Lexeme.widthOf (first :: more)) ps

theorem flatten_groups (offset : Nat) (ps : List Piece) :
    (groups offset ps).flatten = Lexeme.located offset (ps.flatMap lexemes) := by
  induction ps generalizing offset with
  | nil => rfl
  | cons p ps ih =>
    cases p with
    | missing kind => simpa [groups, lexemes] using ih offset
    | run kind first more =>
      simp only [groups, List.flatten_cons, ih, List.flatMap_cons, lexemes, Lexeme.located_append]

/-- Where the last lexeme of a run stands, and where the run ends. -/
theorem lastLocated_located (offset : Nat) (first : Lexeme) (more : List Lexeme) :
    let rest := Lexeme.located (offset + first.fullWidth) more
    let last := Lexeme.lastLocated (offset + first.leadingWidth, first) rest
    last.2 = lastOf first more ∧
      last.1 + last.2.width + last.2.trailingWidth
        = offset + Lexeme.widthOf (first :: more) := by
  induction more generalizing offset first with
  | nil =>
    simp [Lexeme.located, Lexeme.lastLocated, lastOf, Lexeme.widthOf, Lexeme.fullWidth]
    omega
  | cons next more ih =>
    obtain ⟨hlast, hstop⟩ := ih (offset + first.fullWidth) next
    simp only [Lexeme.located, Lexeme.lastLocated, List.getLast?_cons, Option.getD_some,
      lastOf_cons] at hlast hstop ⊢
    refine ⟨hlast, hstop.trans ?_⟩
    simp only [Lexeme.widthOf]
    omega

theorem map_snd_located (offset : Nat) (ls : List Lexeme) :
    (Lexeme.located offset ls).map Prod.snd = ls := by
  induction ls generalizing offset with
  | nil => rfl
  | cons l ls ih => simp [Lexeme.located, ih]

theorem coversRun {p : Place} {offset : Nat} {kind : Kind} {first : Lexeme} {more : List Lexeme}
    (h : p.located = (offset, .token (token (.run kind first more))))
    (ht : Takes kind first more) : p.Covers (Lexeme.located offset (first :: more)) := by
  obtain ⟨path, position, element⟩ := p
  obtain ⟨rfl, rfl⟩ := Prod.mk.inj h
  obtain ⟨hlast, hstop⟩ := lastLocated_located position first more
  refine ⟨?_, rfl, ?_, ?_, ?_⟩
  · rw [map_snd_located]
    exact ht
  · rw [hlast]
    rfl
  · simp [Place.textSpan, token, Token.leadingWidth, Token.leading, totalWidth_gaps,
      Lexeme.leadingWidth]
  · have hwidth := fullWidth_token (.run kind first more)
    have htrailing : Token.trailingWidth (token (.run kind first more))
        = (lastOf first more).trailingWidth := totalWidth_gaps _
    rw [Token.fullWidth, htrailing] at hwidth
    simp only [hlast, lexemes] at hstop hwidth ⊢
    simp only [Place.textSpan, Span.stop_ofWidth]
    omega

/-- Pieces one after the other cover their lexemes, group by group. -/
theorem covers_groups {ps : List Piece} {offset : Nat} {places : List Place}
    (h : places.map Place.located
      = (Token.located offset (ps.map token)).map (Prod.map id Tree.token))
    (ht : ∀ p ∈ ps, p.Holds) :
    List.Forall₂ Place.Covers (places.filter (!·.isMissing)) (groups offset ps) := by
  induction ps generalizing offset places with
  | nil =>
    have hnil : places = [] := by simpa [Token.located] using h
    exact hnil ▸ .nil
  | cons p ps ih =>
    obtain ⟨q, rest, rfl⟩ : ∃ q rest, places = q :: rest := by
      cases places with
      | nil => simp [Token.located] at h
      | cons q rest => exact ⟨q, rest, rfl⟩
    simp only [List.map_cons, Token.located, List.cons.injEq] at h
    obtain ⟨hq, hrest⟩ := h
    rw [fullWidth_token] at hrest
    have htail := ih hrest fun p hp => ht p (List.mem_cons_of_mem _ hp)
    have helement : q.element = .token p.token := congrArg Prod.snd hq
    cases p with
    | missing kind =>
      have hmissing : q.isMissing := by rw [Place.isMissing, helement]; rfl
      simpa [hmissing, groups, lexemes, Lexeme.widthOf] using htail
    | run kind first more =>
      have hpresent : q.isMissing = false := by rw [Place.isMissing, helement]; rfl
      rw [List.filter_cons_of_pos (by simp [hpresent]), groups]
      exact .cons (coversRun hq (ht _ (List.mem_cons_self ..))) htail

end Piece

/-! ## Writing a tree -/

/-- What a token's place stands for: its leading trivia, its text and its trailing trivia, as the
text has them. -/
def SyntaxTree.written? (tree : SyntaxTree) (p : Place) : Option Text := do
  let leading ← (p.leadingTrivia?.getD []).mapM fun t => tree.slice? t.span
  let body ← tree.slice? p.textSpan
  let trailing ← (p.trailingTrivia?.getD []).mapM fun t => tree.slice? t.span
  return leading.flatten ++ body ++ trailing.flatten

theorem Gap.textOf_cons (g : Gap) (gaps : List Gap) :
    Gap.textOf (g :: gaps) = g.text ++ Gap.textOf gaps := rfl

/-- The text of pieces of trivia one after the other. -/
theorem TriviaPlace.slice_sequence (owner : Place) (before after : Text) (gaps : List Gap) :
    (sequence owner (Text.width before) (gaps.map Gap.trivia)).mapM
        (fun t => Text.slice? (before ++ (Gap.textOf gaps ++ after)) t.span)
      = some (gaps.map (·.text)) := by
  induction gaps generalizing before with
  | nil => rfl
  | cons g gaps ih =>
    have hfirst := Text.slice?_append before g.text (Gap.textOf gaps ++ after)
    have hrest := ih (before ++ g.text)
    simp only [List.append_assoc, Text.width_append] at hfirst hrest
    simp only [List.map_cons, sequence, List.mapM_cons, Gap.textOf_cons, List.append_assoc]
    simp only [TriviaPlace.span, Gap.trivia, Gap.width] at hrest ⊢
    rw [hfirst, hrest]
    rfl

namespace Piece

variable {tree : SyntaxTree} {q : Place} {before after : Text}

/-- A token's place is written in three parts. -/
theorem written_of_slices {t : Token} (h : q.element = .token t) {leading trailing : List Text}
    {body : Text}
    (hl : (TriviaPlace.sequence q q.position t.leading).mapM
      (fun t => Text.slice? tree.text t.span) = some leading)
    (hb : Text.slice? tree.text q.textSpan = some body)
    (ht : (TriviaPlace.sequence q q.textSpan.stop t.trailing).mapM
      (fun t => Text.slice? tree.text t.span) = some trailing) :
    tree.written? q = some (leading.flatten ++ body ++ trailing.flatten) := by
  simp [SyntaxTree.written?, SyntaxTree.slice?, Place.leadingTrivia?, Place.trailingTrivia?, h, hl,
    hb, ht]

/-- The place of a piece is written as its lexemes. -/
theorem written_token {p : Piece} (hq : q.located = (Text.width before, .token p.token))
    (ht : tree.text = before ++ (Lexeme.textOf p.lexemes ++ after)) :
    tree.written? q = some (Lexeme.textOf p.lexemes) := by
  obtain ⟨hposition, helement⟩ := Prod.mk.inj hq
  have hspan := Place.textSpan_of_token helement
  rw [hposition] at hspan
  cases p with
  | missing kind =>
    have hbody := Text.slice?_append before [] after
    rw [List.append_nil] at hbody
    exact @written_of_slices tree q _ helement [] [] [] rfl (by rw [ht, hspan]; exact hbody) rfl
  | run kind first more =>
    rw [lexemes, textOf_run] at ht ⊢
    have hlead := TriviaPlace.slice_sequence q before
      (joinedText first more ++ (Gap.textOf (lastOf first more).trailing ++ after)) first.leading
    have hbody := Text.slice?_append (before ++ Gap.textOf first.leading) (joinedText first more)
      (Gap.textOf (lastOf first more).trailing ++ after)
    have htrail := TriviaPlace.slice_sequence q
      (before ++ Gap.textOf first.leading ++ joinedText first more) after
      (lastOf first more).trailing
    have hstart : Token.leadingWidth (token (.run kind first more))
        = Text.width (Gap.textOf first.leading) := totalWidth_gaps _
    simp only [List.append_assoc, Text.width_append] at ht hlead hbody htrail
    rw [hstart] at hspan
    rw [← ht] at hlead hbody htrail
    have hall := written_of_slices helement (by rw [hposition]; exact hlead)
      (by rw [hspan]; exact hbody) (by rw [hspan, Span.stop_ofWidth, Nat.add_assoc]; exact htrail)
    rw [hall]
    simp [Gap.textOf, List.flatMap_def]

theorem written_tokens {ps : List Piece} {places : List Place}
    (h : places.map Place.located
      = (Token.located (Text.width before) (ps.map token)).map (Prod.map id Tree.token))
    (ht : tree.text = before ++ (Lexeme.textOf (ps.flatMap lexemes) ++ after)) :
    (places.mapM tree.written?).map List.flatten
      = some (Lexeme.textOf (ps.flatMap lexemes)) := by
  induction ps generalizing before places with
  | nil =>
    have hnil : places = [] := by simpa [Token.located] using h
    rw [hnil]
    rfl
  | cons p ps ih =>
    obtain ⟨q, rest, rfl⟩ : ∃ q rest, places = q :: rest := by
      cases places with
      | nil => simp [Token.located] at h
      | cons q rest => exact ⟨q, rest, rfl⟩
    simp only [List.map_cons, Token.located, List.cons.injEq] at h
    obtain ⟨hq, hrest⟩ := h
    have hwidth : Text.width before + p.token.fullWidth
        = Text.width (before ++ Lexeme.textOf p.lexemes) := by
      rw [fullWidth_token, Text.width_append, Lexeme.width_textOf]
    rw [hwidth] at hrest
    rw [List.flatMap_cons, Lexeme.textOf_append] at ht ⊢
    have hfirst := written_token hq (by simpa using ht)
    have htail := ih hrest (by simpa using ht)
    obtain ⟨texts, htexts, hflat⟩ := Option.map_eq_some_iff.mp htail
    simp [List.mapM_cons, hfirst, htexts, hflat]

end Piece

/-! ## Whole texts -/

theorem Cursor.ahead_eq_nil {c : Cursor} (h : c.kind = .eof) (hk : ∀ l ∈ c.ahead, l.kind ≠ .eof) :
    c.ahead = [] := by
  cases hc : c.ahead with
  | nil => rfl
  | cons l rest =>
    have hkind : c.kind = l.kind := by simp [kind, kindAt, Lexeme.kindAt, hc]
    exact absurd (hkind.symm.trans h) (hk l (by simp [hc]))

/-- A parse reads all lexemes in front of the final one. -/
theorem ahead_draftOf (text : Text) : (draftOf (Lexemes.scan text)).rest.ahead = [] := by
  obtain ⟨items, -, hputs, hkind, -⟩ := draftOf_reading (Lexemes.scan text)
  have hahead : (Lexemes.scan text).body = _ := hputs.reading.passes.ahead
  refine Cursor.ahead_eq_nil hkind fun l hl => ?_
  have hmem : l ∈ (Lexemes.scan text).body := hahead ▸ List.mem_append_right _ hl
  exact (Lexemes.kind_of_mem_body hmem).2

/-- The pieces of a parse: what fills its first slot is made of the lexemes in front of the final
one, and the final one is a piece of its own. -/
theorem draftOf_pieces (text : Text) :
    ∃ pieces, Draft.piecesOf (draftOf (Lexemes.scan text)).value
        = pieces ++ [.run .eof (Lexemes.scan text).final []] ∧
      pieces.flatMap Piece.lexemes = (Lexemes.scan text).body ∧ ∀ p ∈ pieces, p.Holds := by
  obtain ⟨items, hvalue, hputs, -, -⟩ := draftOf_reading (Lexemes.scan text)
  have hahead : (Lexemes.scan text).body = _ := hputs.reading.passes.ahead
  refine ⟨Draft.piecesOf [Draft.list items], ?_, ?_, hputs.reading.holds⟩
  · rw [hvalue]
    cases items <;> simp [Draft.list]
  · rw [← Draft.lexemesOf_eq]
    rw [ahead_draftOf, List.append_nil] at hahead
    exact hahead.symm

theorem lexemes_draftOf (text : Text) :
    (Draft.piecesOf (draftOf (Lexemes.scan text)).value).flatMap Piece.lexemes
      = (Lexemes.scan text).all := by
  obtain ⟨pieces, hpieces, hbody, -⟩ := draftOf_pieces text
  rw [hpieces, List.flatMap_append, hbody]
  rfl

theorem tokens_parse (text : Text) :
    (parse text).tree.slots.tokens
      = (Draft.piecesOf (draftOf (Lexemes.scan text)).value).map Piece.token := by
  show ((Slots.ofList _).map id Piece.token).tokens = _
  rw [Slots.tokens_map, Draft.tokens_ofList]

/-- Where the tokens of a parse stand. -/
theorem located_parse (text : Text) :
    (parse text).tree.tokens.map Place.located
      = (Token.located 0 ((Draft.piecesOf (draftOf (Lexemes.scan text)).value).map Piece.token)).map
        (Prod.map id Tree.token) := by
  rw [← tokens_parse]
  exact Tree.map_located_tokenPlaces [] 0 (parse text).tree.root.element

/-- A missing token takes no room and has no trivia. -/
theorem Place.missing_is_empty {text : Text} {p : Place} (hp : p ∈ (parse text).tree.tokens)
    (hm : p.isMissing) :
    p.fullWidth = 0 ∧ p.leadingTrivia? = some [] ∧ p.trailingTrivia? = some [] := by
  have hmem : p.located ∈ (parse text).tree.tokens.map Place.located := List.mem_map_of_mem hp
  rw [located_parse] at hmem
  obtain ⟨⟨o, t⟩, -, ht⟩ := List.mem_map.mp hmem
  have helement : p.element = .token t := (congrArg Prod.snd ht).symm
  rw [Place.isMissing, helement] at hm
  cases t with
  | present => cases hm
  | missing kind =>
    simp only [Place.fullWidth, Place.leadingTrivia?, Place.trailingTrivia?, helement]
    exact ⟨rfl, rfl, rfl⟩

theorem written_parse (text : Text) :
    ((parse text).tree.tokens.mapM (parse text).tree.written?).map List.flatten = some text := by
  have hall := lexemes_draftOf text
  have htext : (parse text).tree.text = [] ++ (Lexeme.textOf (Lexemes.scan text).all ++ []) := by
    rw [Lexemes.textOf_scan, List.append_nil]
    rfl
  rw [← hall] at htext
  rw [Piece.written_tokens (located_parse text) htext, hall, Lexemes.textOf_scan]

/-- The present tokens of a parse cover the lexemes of its text, one group after the other; the
final lexeme is a group of its own, and no other group ends the text. A token that is missing takes
no room. Written one after the other, all tokens are the text. -/
theorem parse_covers (text : Text) :
    ∃ groups places last o,
      Lexeme.located 0 (Lexemes.scan text).all
          = groups.flatten ++ [(o, (Lexemes.scan text).final)] ∧
        (∀ group ∈ groups, ∀ l ∈ group, l.2.kind ≠ .eof) ∧
        (parse text).tree.tokens.filter (!·.isMissing) = places ++ [last] ∧
        List.Forall₂ Place.Covers places groups ∧
        last.Covers [(o, (Lexemes.scan text).final)] ∧ last.kind = .eof ∧
      (∀ p ∈ (parse text).tree.tokens, p.isMissing →
        p.fullWidth = 0 ∧ p.leadingTrivia? = some [] ∧ p.trailingTrivia? = some []) ∧
      ((parse text).tree.tokens.mapM (parse text).tree.written?).map List.flatten = some text := by
  obtain ⟨pieces, hpieces, hbody, hholds⟩ := draftOf_pieces text
  have hplaces := located_parse text
  rw [hpieces, List.map_append, Token.located_append, List.map_append] at hplaces
  obtain ⟨places, rest, htokens, hinit, hrest⟩ := List.map_eq_append_iff.mp hplaces
  obtain ⟨last, rfl⟩ : ∃ q, rest = [q] := by
    simpa [Token.located, List.length_eq_one_iff] using congrArg List.length hrest
  have hlast : last.located = (0 + Token.totalWidth (pieces.map Piece.token),
      .token (Piece.token (.run .eof (Lexemes.scan text).final []))) := by
    simpa [Token.located] using hrest
  have hflat := Piece.flatten_groups 0 pieces
  have hcovers := Piece.covers_groups hinit hholds
  have helement : last.element = .token _ := congrArg Prod.snd hlast
  have hkind : last.kind = .eof := by rw [Place.kind, helement]; rfl
  have hpresent : last.isMissing = false := by rw [Place.isMissing, helement]; rfl
  have heof : Piece.Takes .eof (Lexemes.scan text).final [] := Lexemes.kind_final text ▸ .same _
  have hfinal := Piece.coversRun hlast heof
  refine ⟨Piece.groups 0 pieces, places.filter (!·.isMissing), last, _, ?_, ?_, ?_, hcovers, hfinal,
    hkind, ?_, ?_⟩
  · rw [hflat, hbody, Lexemes.all, Lexeme.located_append, Piece.totalWidth_tokens, hbody]
    rfl
  · intro group hgroup l hl
    have hmem : l ∈ (Piece.groups 0 pieces).flatten := List.mem_flatten_of_mem hgroup hl
    rw [hflat, hbody] at hmem
    have hsnd := List.mem_map_of_mem (f := Prod.snd) hmem
    rw [Piece.map_snd_located] at hsnd
    exact (Lexemes.kind_of_mem_body hsnd).2
  · rw [htokens, List.filter_append]
    simp [hpresent]
  · exact fun p hp hm => Place.missing_is_empty hp hm
  · exact written_parse text

end Stylesheet
