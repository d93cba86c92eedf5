import Stylesheet.Proofs.Standing

/-!
# What tokens spell

The marks of a text say which of its lexemes each token is made of. The text of such a token is all
of the source from the start of the first of these lexemes to the end of the last one, with the
trivia and the lexemes between them; what is in front of the first one and behind the last one is
not part of it.

Results:
* `Place.Spells`: a token whose text goes from one lexeme to another.
* `tokens_isOf`: the tokens of a text stand where its marks say, and spell their lexemes.
-/
namespace Stylesheet

/-- The text of the token at a place is the source from the start of one lexeme's text to the end of
another one's, each given with the offset of its text. -/
structure Place.Spells (text : Text) (p : Place) (first last : Nat × Lexeme) : Prop where
  start : p.textSpan.start = first.1
  stop : p.textSpan.stop = last.1 + last.2.width
  source : ∃ before content behind, text = before ++ content ++ behind ∧
    Text.width before = first.1 ∧ Text.width (before ++ content) = last.1 + last.2.width ∧
      (parse text).tree.slice? p.textSpan = some content

/-- The token at a place is what a mark says: missing, or made of some lexemes of the text. -/
def Place.IsOf (text : Text) (p : Place) : Mark → Prop
  | .missing kind => p.kind = kind ∧ p.isMissing
  | .run kind first more => p.kind = kind ∧ ¬p.isMissing ∧ ∃ a b,
      (Lexeme.located 0 (Lexemes.scan text).all)[first]? = some a ∧
        (Lexeme.located 0 (Lexemes.scan text).all)[first + more]? = some b ∧ p.Spells text a b

/-! ## One token -/

/-- A stretch of a list, as a run: its first lexeme, and its last one. -/
theorem Mark.piece_run {ls : List Lexeme} {i n : Nat} (h : i + n < ls.length) (kind : Kind) :
    ∃ more, (Mark.run kind i n).piece ls = .run kind ls[i] more ∧
      ls.take i ++ ls[i] :: more = ls.take (i + n) ++ [ls[i + n]] ∧
        Piece.lastOf ls[i] more = ls[i + n] := by
  have hdrop : ls.drop i = ls[i] :: ls.drop (i + 1) := List.drop_eq_getElem_cons (by omega)
  have htake : ls[i] :: (ls.drop (i + 1)).take n = (ls.drop i).take (n + 1) := by
    rw [hdrop, List.take_succ_cons]
  refine ⟨(ls.drop (i + 1)).take n, ?_, ?_, ?_⟩
  · simp only [piece, hdrop]
  · rw [htake, ← List.take_add, ← Nat.add_assoc, List.take_succ_eq_append_getElem h]
  · have hlast := Piece.getLast?_run ls[i] ((ls.drop (i + 1)).take n)
    rw [htake, List.getLast?_take, if_neg (Nat.succ_ne_zero n), List.getElem?_drop,
      Nat.add_sub_cancel, List.getElem?_eq_getElem h] at hlast
    exact (Option.some.inj hlast).symm

/-- A token takes as much room as the lexemes it is made of. -/
theorem Mark.widthOf_take {ls : List Lexeme} {i n : Nat} (h : i + n < ls.length) (kind : Kind) :
    Lexeme.widthOf (ls.take (i + n + 1))
      = Lexeme.widthOf (ls.take i) + (Mark.token ls (.run kind i n)).fullWidth := by
  obtain ⟨more, hpiece, hsplit, -⟩ := piece_run h kind
  rw [token, hpiece, Piece.fullWidth_token, Piece.lexemes, ← Lexeme.widthOf_append, hsplit,
    List.take_succ_eq_append_getElem h]

/-- A token that is made of a run owns the trivia around it, and its text is what is between. -/
theorem Place.spells_of_run {text before : Text} (behind : Text) {p : Place} {kind : Kind}
    {first : Lexeme} {more : List Lexeme} {start stop : Nat}
    (ht : text = before ++ Lexeme.textOf (first :: more) ++ behind)
    (hp : p.located = (Text.width before, .token (Piece.run kind first more).token))
    (hstart : start = Text.width before + first.leadingWidth)
    (hstop : stop + (Piece.lastOf first more).width + (Piece.lastOf first more).trailingWidth
      = Text.width before + Lexeme.widthOf (first :: more)) :
    p.Spells text (start, first) (stop, Piece.lastOf first more) := by
  obtain ⟨hposition, helement⟩ := Prod.mk.inj hp
  have htext : text = before ++ Gap.textOf first.leading ++ Piece.joinedText first more
      ++ (Gap.textOf (Piece.lastOf first more).trailing ++ behind) := by
    rw [ht, Piece.textOf_run]
    simp only [List.append_assoc]
  have hlead : Token.leadingWidth (Piece.run kind first more).token = first.leadingWidth :=
    Piece.totalWidth_gaps _
  have hspan : p.textSpan = Span.ofWidth (Text.width (before ++ Gap.textOf first.leading))
      (Text.width (Piece.joinedText first more)) := by
    rw [Place.textSpan_of_token helement, hposition, hlead, Text.width_append]
    rfl
  have hfrom : Text.width (before ++ Gap.textOf first.leading) = start := by
    rw [Text.width_append, hstart, Lexeme.leadingWidth]
  have hto : Text.width (before ++ Gap.textOf first.leading ++ Piece.joinedText first more)
      = stop + (Piece.lastOf first more).width := by
    rw [← Lexeme.width_textOf, Piece.textOf_run, Text.width_append, Text.width_append] at hstop
    rw [Text.width_append, Text.width_append]
    simp only [Lexeme.trailingWidth] at hstop
    omega
  refine ⟨?_, ?_, _, _, _, htext, hfrom, hto, ?_⟩
  · rw [hspan, Span.start_ofWidth, hfrom]
  · rw [hspan, Span.stop_ofWidth, ← Text.width_append, hto]
  · show Text.slice? text p.textSpan = _
    rw [hspan, htext]
    exact Text.slice?_append ..

/-- The token of a run of lexemes of a text, placed behind the lexemes in front of them. -/
theorem Place.isOf_run {text : Text} {p : Place} {kind : Kind} {i n : Nat}
    (h : i + n < (Lexemes.scan text).all.length)
    (hp : p.located = (Lexeme.widthOf ((Lexemes.scan text).all.take i),
      .token (Mark.token (Lexemes.scan text).all (.run kind i n)))) :
    p.IsOf text (.run kind i n) := by
  obtain ⟨more, hpiece, hsplit, hlast⟩ := Mark.piece_run h kind
  rw [Mark.token, hpiece, ← Lexeme.width_textOf] at hp
  have helement : p.element = .token (Piece.run kind _ more).token := congrArg Prod.snd hp
  have hi : i < (Lexemes.scan text).all.length := by omega
  have hfirst := Lexemes.getElem?_located 0 (Lexemes.scan text).all i
  have hend := Lexemes.getElem?_located 0 (Lexemes.scan text).all (i + n)
  rw [List.getElem?_eq_getElem hi] at hfirst
  rw [List.getElem?_eq_getElem h] at hend
  refine ⟨?_, ?_, _, _, hfirst, hend, ?_⟩
  · rw [Place.kind, helement]
    rfl
  · rw [Place.isMissing, helement]
    exact Bool.false_ne_true
  · rw [← hlast]
    refine Place.spells_of_run (Lexeme.textOf ((Lexemes.scan text).all.drop (i + n + 1))) ?_ hp ?_ ?_
    · rw [← Lexeme.textOf_append, hsplit, ← List.take_succ_eq_append_getElem h,
        ← Lexeme.textOf_append, List.take_append_drop, Lexemes.textOf_scan]
    · rw [Nat.zero_add, Lexeme.width_textOf]
    · rw [Lexeme.width_textOf, ← Lexeme.widthOf_append, hsplit, Lexeme.widthOf_append, hlast]
      simp only [Lexeme.widthOf, Lexeme.fullWidth]
      omega

/-! ## All tokens -/

/-- Tokens whose marks are the lexemes of a text from an index on. -/
theorem isOf_marks {text : Text} {marks : List Mark} {i : Nat} {places : List Place}
    (hmarks : marks.flatMap Mark.indices
      = List.range' i ((Lexemes.scan text).all.length - i))
    (hplaces : places.map Place.located
      = (Token.located (Lexeme.widthOf ((Lexemes.scan text).all.take i))
          (marks.map (Mark.token (Lexemes.scan text).all))).map (Prod.map id Tree.token)) :
    List.Forall₂ (Place.IsOf text) places marks := by
  induction marks generalizing i places with
  | nil =>
    obtain rfl : places = [] := by simpa [Token.located] using hplaces
    exact .nil
  | cons m marks ih =>
    obtain ⟨p, rest, rfl⟩ : ∃ p rest, places = p :: rest := by
      cases places with
      | nil => simp [Token.located] at hplaces
      | cons p rest => exact ⟨p, rest, rfl⟩
    simp only [List.map_cons, Token.located, List.cons.injEq] at hplaces
    obtain ⟨hp, hrest⟩ := hplaces
    cases m with
    | missing kind =>
      have helement : p.element = .token (.missing kind) := congrArg Prod.snd hp
      refine .cons ⟨?_, ?_⟩ (ih hmarks hrest)
      · rw [Place.kind, helement]
        rfl
      · rw [Place.isMissing, helement]
        rfl
    | run kind first more =>
      rw [List.flatMap_cons, Mark.indices] at hmarks
      obtain ⟨count, hcount, hrun, htail⟩ := List.range'_eq_append_iff.mp hmarks.symm
      obtain rfl : more + 1 = count := by simpa using congrArg List.length hrun
      obtain rfl : first = i := by
        rw [List.range'_succ, List.range'_succ] at hrun
        exact (List.cons.inj hrun).1
      have hlt : first + more < (Lexemes.scan text).all.length := by omega
      have hwidth := Mark.widthOf_take hlt kind
      rw [← hwidth] at hrest
      refine .cons (Place.isOf_run hlt hp) (ih ?_ hrest)
      rw [htail, Nat.mul_one, Nat.add_assoc, Nat.sub_sub]

/-- Each token of a text is what its mark says, and spells the lexemes that it is made of. -/
theorem tokens_isOf (text : Text) :
    List.Forall₂ (Place.IsOf text) (parse text).tree.tokens (marksOf text).tokens := by
  refine isOf_marks (i := 0) ?_ ?_
  · rw [(isMarked text).indices, List.range_eq_range', Nat.sub_zero]
  · rw [located_parse, ← tokens_parse, (isMarked text).tree, Slots.tokens_map]
    rfl

end Stylesheet
