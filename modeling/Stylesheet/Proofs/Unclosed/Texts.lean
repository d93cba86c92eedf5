import Stylesheet.Proofs.Joining
import Stylesheet.Proofs.Places
import Stylesheet.Proofs.Unclosed.Productions
import Stylesheet.Proofs.Unclosed.Scanning

/-!
# Style sheets without their last braces

Where a style sheet without errors ends with closing braces that close blocks and values, these
braces can be left out. Each of them is then missed once, at the end of the text, and nothing else
changes: the tree has the same nodes and the same tokens, but for the braces, which are missing, and
for the trivia in front of the end.

Results:
* `Unclosed.items_left`: what becomes of the items of a style sheet.
* `Unclosed.pieces_left`: pieces in front of the cut stay as they are, those behind it are missing.
* `parse_unclosed`: the diagnostics and the tree of a style sheet without its last braces.
-/
namespace Stylesheet

/-! ## Diagnostics -/

namespace Diagnostic

/-- In a row that is sorted, what starts before an offset stands in front. -/
theorem takeWhile_eq_filter {n : Nat} {ds : List Diagnostic}
    (h : ds.Pairwise fun a b => a.span.start ≤ b.span.start) :
    ds.takeWhile (·.span.start < n) = ds.filter (·.span.start < n) ∧
      ds.dropWhile (·.span.start < n) = ds.filter fun d => !decide (d.span.start < n) := by
  induction ds with
  | nil => exact ⟨rfl, rfl⟩
  | cons d ds ih =>
    obtain ⟨hle, hds⟩ := List.pairwise_cons.mp h
    by_cases hd : d.span.start < n
    · simp [hd, ih hds]
    · have hnone : ds.filter (·.span.start < n) = [] := List.filter_eq_nil_iff.mpr fun e he => by
        have := hle e he
        simp
        omega
      have hall : (ds.filter fun d => !decide (d.span.start < n)) = ds :=
        List.filter_eq_self.mpr fun e he => by
          have := hle e he
          simp
          omega
      simp [hd, hnone, hall]

/-- What a row is sorted to does not depend on what else is in it. -/
theorem sorted_filter (p : Diagnostic → Bool) (ds : List Diagnostic) :
    (sorted ds).filter p = sorted (ds.filter p) := by
  induction ds with
  | nil => simp [sorted]
  | cons d ds ih =>
    obtain ⟨htake, hdrop⟩ := takeWhile_eq_filter (n := d.span.start) (pairwise_sorted ds)
    cases hp : p d with
    | false =>
      rw [List.filter_cons_of_neg (by simp [hp]), ← ih, sorted_cons, List.filter_append,
        List.filter_cons_of_neg (by simp [hp]), ← List.filter_append,
        List.takeWhile_append_dropWhile]
    | true =>
      obtain ⟨htake', hdrop'⟩ := takeWhile_eq_filter (n := d.span.start)
        (pairwise_sorted (ds.filter p))
      rw [List.filter_cons_of_pos hp, sorted_cons, sorted_cons, htake', hdrop', ← ih, htake, hdrop,
        List.filter_append, List.filter_cons_of_pos hp, List.filter_comm, List.filter_comm p]

/-- Errors that are all the same need not be sorted. -/
theorem errors_sorted {ds : List Diagnostic} {d : Diagnostic} (h : ∀ e ∈ errors ds, e = d) :
    errors (sorted ds) = List.replicate (errors ds).length d := by
  have hperm : (errors (sorted ds)).Perm (errors ds) := (sorted_perm ds).filter isError
  rw [List.eq_replicate_of_mem h, List.perm_replicate] at hperm
  exact hperm

end Diagnostic

/-! ## What is left of the pieces -/

namespace Unclosed

variable {s t : Tally} {n e : Nat}

/-- Pieces in front of the cut stay as they are. -/
theorem LeftList.split {front back ps : List Piece}
    (h : LeftList LeftPiece ⟨n, e⟩ t (front ++ back) ps)
    (hn : (front.flatMap Piece.lexemes).length = n) :
    ∃ ps', ps = front ++ ps' ∧ LeftList LeftPiece ⟨0, e⟩ t back ps' := by
  induction front generalizing n ps with
  | nil =>
    obtain rfl : 0 = n := hn
    exact ⟨ps, rfl, h⟩
  | cons p front ih =>
    rw [List.flatMap_cons, List.length_append] at hn
    cases h with
    | cons hp hrest =>
      cases hp with
      | @kept kind first more m _ =>
        rw [Piece.lexemes, List.length_cons] at hn
        obtain ⟨ps', rfl, hback⟩ := ih hrest (by omega)
        rw [List.take_of_length_le (by omega)]
        exact ⟨ps', rfl, hback⟩
      | lost => simp [Piece.lexemes] at hn

/-- Behind the end of the text there are closing braces only, and all of them are missing. -/
theorem LeftList.behind {ps ps' : List Piece} (h : LeftList LeftPiece ⟨0, e⟩ t ps ps') :
    ps = (ps.flatMap Piece.lexemes).map (fun l => .run .rightBrace l []) ∧
      ps' = List.replicate ps.length (.missing .rightBrace) ∧ t = ⟨0, e + ps.length⟩ := by
  induction ps generalizing e ps' with
  | nil =>
    cases h
    exact ⟨rfl, rfl, rfl⟩
  | cons p ps ih =>
    cases h with
    | cons hp hrest =>
      cases hp with
      | lost =>
        obtain ⟨hps, rfl, rfl⟩ := ih hrest
        refine ⟨?_, rfl, ?_⟩
        · rw [List.flatMap_cons, Piece.lexemes, List.map_append, ← hps]
          rfl
        · rw [List.length_cons, Nat.add_right_comm, Nat.add_assoc]

theorem LeftList.pieces {ds ds' : List Draft} (h : LeftList LeftDraft s t ds ds') :
    LeftList LeftPiece s t (ds.flatMap Tree.tokens) (ds'.flatMap Tree.tokens) := by
  induction h with
  | nil => exact .nil
  | cons h _ ih => exact h.pieces.append ih

theorem LeftList.kinds {ds ds' : List Draft} (h : LeftList LeftDraft s t ds ds') :
    ds.map (Tree.map id Piece.kind) = ds'.map (Tree.map id Piece.kind) := by
  induction h with
  | nil => rfl
  | cons h _ ih => exact congrArg₂ List.cons h.kinds ih

end Unclosed

/-! ## Braces at the end of a text -/

/-- A token closes a block or a value in braces: it stands in the last slot of one. -/
def SyntaxTree.Closes (tree : SyntaxTree) (p : Place) : Prop :=
  p.path.getLast? = some 2 ∧
    (tree.parent? p).map Place.kind ∈ [some Kind.block, some Kind.propertyValueWithBraces]

instance (tree : SyntaxTree) (p : Place) : Decidable (tree.Closes p) :=
  inferInstanceAs (Decidable (_ ∧ _))

/-- The last lexemes of a text, behind the `front` ones, are closing braces, each of which closes a
block or a value in braces. -/
structure EndsInBraces (text : Text) (front : List Lexeme) (first : Lexeme) (more : List Lexeme) :
    Prop where
  body : (Lexemes.scan text).body = front ++ first :: more
  braces : ∀ l ∈ first :: more, l.kind = .rightBrace
  closes : ∀ l ∈ Lexeme.located (Lexeme.widthOf front) (first :: more),
    ∃ p ∈ (parse text).tree.tokens, p.isMissing = false ∧
      p.textSpan = Span.ofWidth l.1 l.2.width ∧ (parse text).tree.Closes p

/-- A text that is cut in front of a closing brace is read as the text is, without its last
braces. -/
structure LacksBraces (text cut : Text) (first : Lexeme) (more : List Lexeme) : Prop where
  /-- One error for each brace, at the end of the text that is cut. -/
  errors : Diagnostic.errors (parse cut).diagnostics = List.replicate (more.length + 1)
    ((Problem.expected .rightBrace).reportAt (Span.emptyAt (Text.width cut)))
  warnings : Diagnostic.warnings (parse cut).diagnostics
    = Diagnostic.warnings (parse text).diagnostics
  /-- The nodes and their slots are the same, and so are the kinds of the tokens. -/
  kinds : (parse cut).tree.slots.map id Token.kind = (parse text).tree.slots.map id Token.kind
  /-- All tokens are the same but the braces, which are missing, and the end of the text. -/
  tokens : ∃ kept leading,
    (parse text).tree.slots.tokens
        = kept ++ (first :: more).map (fun l => Piece.token (.run .rightBrace l []))
          ++ [.present .eof leading 0 []] ∧
      (parse cut).tree.slots.tokens
        = kept ++ List.replicate (more.length + 1) (.missing .rightBrace)
          ++ [.present .eof (first.leading.map Gap.trivia) 0 []]

namespace Unclosed

variable {text : Text} {front more : List Lexeme} {first : Lexeme}

/-- What becomes of the items of a style sheet. -/
theorem items_left (hbody : (Lexemes.scan text).body = front ++ first :: more)
    (hb : ∀ l ∈ first :: more, l.kind = .rightBrace)
    (h : Diagnostic.hasErrors (parse text).diagnostics = false) :
    let cut := Lexeme.textOf front ++ Gap.textOf first.leading
    Same (Text.width cut) (LeftList LeftDraft) ⟨front.length, 0⟩ 0 (itemsOf text)
      (itemsOf cut) := by
  intro cut
  have hscan : Lexemes.scan cut = ⟨front, ⟨first.leading, .eof, [], []⟩, []⟩ :=
    Lexemes.scan_front hbody (scan_reports_of_hasErrors h)
  have hmeets : Meets (Text.width cut) (.ofLexemes (Lexemes.scan text))
      (.ofLexemes (Lexemes.scan cut)) := by
    refine ⟨⟨first :: more, ?_, hb⟩, fun _ => rfl, fun _ => rfl, ?_⟩
    · rw [hscan]
      exact hbody
    · rw [hscan, Text.width_append, Lexeme.width_textOf]
      show 0 + Lexeme.widthOf front + Text.width (Gap.textOf first.leading) = _
      rw [Nat.zero_add]
  have hsame := steady_many (@steady_documentStep (Text.width cut)) _ _ 0 hmeets
    (good_itemsOf h) (faults_itemsOf cut)
  have hahead : (Cursor.ofLexemes (Lexemes.scan cut)).ahead.length = front.length := by
    rw [hscan]
    rfl
  rwa [hahead] at hsame

end Unclosed

/-! ## Where the braces stand -/

/-- Where a token of a row of pieces stands, a piece stands behind so many lexemes. -/
theorem Piece.mem_located {ps : List Piece} {offset o : Nat} {t : Token}
    (h : (o, t) ∈ Token.located offset (ps.map token)) :
    ∃ before p behind, ps = before ++ p :: behind ∧ t = p.token ∧
      o = offset + Lexeme.widthOf (before.flatMap lexemes) := by
  induction ps generalizing offset with
  | nil => cases h
  | cons p ps ih =>
    rcases List.mem_cons.mp h with h | h
    · obtain ⟨rfl, rfl⟩ := Prod.mk.inj h
      exact ⟨[], p, ps, rfl, rfl, rfl⟩
    · obtain ⟨before, q, behind, rfl, ht, ho⟩ := ih h
      refine ⟨p :: before, q, behind, rfl, ht, ?_⟩
      rw [ho, fullWidth_token, List.flatMap_cons, Lexeme.widthOf_append, Nat.add_assoc]

/-- Lexemes with a text of their own start at different offsets. -/
theorem Lexeme.front_eq {xs ys front more : List Lexeme} {x first : Lexeme}
    (h : xs ++ x :: ys = front ++ first :: more) (hpos : ∀ l ∈ front ++ [first], 0 < l.width)
    (hstart : widthOf xs + x.leadingWidth = widthOf front + first.leadingWidth) : xs = front := by
  rcases List.append_eq_append_iff.mp h with ⟨w, rfl, hw⟩ | ⟨w, rfl, hw⟩
  · cases w with
    | nil => simp
    | cons l w =>
      obtain ⟨rfl, -⟩ := List.cons.inj hw
      have := hpos x (by simp)
      simp only [widthOf_append, widthOf, fullWidth] at hstart
      omega
  · cases w with
    | nil => simp
    | cons l w =>
      obtain ⟨rfl, -⟩ := List.cons.inj hw
      have := hpos first (by simp)
      simp only [widthOf_append, widthOf, fullWidth] at hstart
      omega

namespace EndsInBraces

variable {text : Text} {front more : List Lexeme} {first : Lexeme}

/-- The first of the braces starts a piece. -/
theorem exists_piece (h : EndsInBraces text front first more) :
    ∃ before piece behind, Draft.piecesOf (draftOf (Lexemes.scan text)).value
        = before ++ piece :: behind ∧ before.flatMap Piece.lexemes = front := by
  obtain ⟨p, hp, hpresent, hspan, -⟩ := h.closes _ (List.mem_cons_self ..)
  have hlocated : p.located ∈ (parse text).tree.tokens.map Place.located := List.mem_map_of_mem hp
  rw [located_parse, List.mem_map] at hlocated
  obtain ⟨⟨o, t⟩, hmem, hplace⟩ := hlocated
  obtain ⟨hposition, helement⟩ := Prod.mk.inj hplace
  obtain ⟨before, piece, behind, hpieces, rfl, ho⟩ := Piece.mem_located hmem
  refine ⟨before, piece, behind, hpieces, ?_⟩
  rw [Nat.zero_add] at ho
  rw [Place.isMissing, ← helement] at hpresent
  cases piece with
  | missing => cases hpresent
  | run kind l tail =>
    have hstart : Lexeme.widthOf (before.flatMap Piece.lexemes) + l.leadingWidth
        = Lexeme.widthOf front + first.leadingWidth := by
      have htext := congrArg Span.start (Place.textSpan_of_token helement.symm)
      have hleading : (Piece.run kind l tail).token.leadingWidth = l.leadingWidth :=
        Piece.totalWidth_gaps l.leading
      rw [← hposition, congrArg Span.start hspan, hleading] at htext
      rw [← ho]
      exact htext.symm
    have hall := lexemes_draftOf text
    rw [hpieces, Lexemes.all, h.body, List.flatMap_append, List.flatMap_cons, Piece.lexemes,
      List.cons_append, List.append_assoc, List.cons_append] at hall
    refine Lexeme.front_eq hall (fun f hf => Text.width_pos ?_) hstart
    apply Lexemes.text_ne_nil_scanFrom 0 text
    rw [show (Lexemes.scanFrom 0 text).body = _ from h.body, List.append_cons]
    exact List.mem_append_left more hf

/-- So the braces are pieces of the items, behind those that hold the lexemes in front of them. -/
theorem exists_pieces (h : EndsInBraces text front first more) :
    ∃ kept rest, (itemsOf text).value.flatMap Tree.tokens = kept ++ rest ∧
      kept.flatMap Piece.lexemes = front ∧ rest.flatMap Piece.lexemes = first :: more := by
  obtain ⟨before, piece, behind, hpieces, hfront⟩ := h.exists_piece
  have hitems := lexemes_itemsOf text
  rw [h.body] at hitems
  rw [piecesOf_draftOf] at hpieces
  rcases List.eq_nil_or_concat behind with rfl | ⟨behind, last, rfl⟩
  · -- The piece that ends the text is behind all of the braces.
    obtain ⟨hbefore, -⟩ := List.append_inj' hpieces rfl
    rw [hbefore, hfront] at hitems
    simp at hitems
  · rw [List.concat_eq_append, ← List.cons_append, ← List.append_assoc] at hpieces
    obtain ⟨hbefore, -⟩ := List.append_inj' hpieces rfl
    rw [hbefore, List.flatMap_append, hfront] at hitems
    exact ⟨before, _, hbefore, hfront, List.append_cancel_left hitems⟩

end EndsInBraces

/-! ## Whole texts -/

theorem Piece.kind_token (p : Piece) : p.token.kind = p.kind := by
  cases p <;> rfl

/-- The kinds in the tree of a text are those of its items. -/
theorem kinds_parse (text : Text) : (parse text).tree.slots.map id Token.kind
    = .document ((itemsOf text).value.map (Tree.map id Piece.kind)) (.token .eof) := by
  have hkind : Token.kind ∘ Piece.token = Piece.kind := funext Piece.kind_token
  show ((draftSlots text).map id Piece.token).map id Token.kind = _
  rw [Slots.map_map, hkind, draftSlots_eq]
  exact Slots.map_document Piece.kind _ _

/-- The token that ends the tree of a text has the trivia in front of the end. -/
theorem token_final (text : Text) : (Piece.run .eof (Lexemes.scan text).final []).token
    = .present .eof ((Lexemes.scan text).final.leading.map Gap.trivia) 0 [] := by
  obtain ⟨htext, htrailing⟩ := Lexemes.final_scanFrom 0 text
  simp [Piece.token, Piece.joinedText, Piece.lastOf, Lexemes.scan, htext, htrailing]

section

variable {text : Text} {front more : List Lexeme} {first : Lexeme}

/-- The pieces in front of the cut stay as they are, those behind it are missing, each with an
error. -/
theorem Unclosed.pieces_left (h : Diagnostic.hasErrors (parse text).diagnostics = false)
    (hends : EndsInBraces text front first more) :
    let cut := Lexeme.textOf front ++ Gap.textOf first.leading
    ∃ kept,
      (itemsOf text).value.flatMap Tree.tokens
          = kept ++ (first :: more).map (fun l => .run .rightBrace l []) ∧
        (itemsOf cut).value.flatMap Tree.tokens
          = kept ++ List.replicate (more.length + 1) (.missing .rightBrace) ∧
        (Diagnostic.errors (itemsOf cut).reports).length = more.length + 1 := by
  intro cut
  obtain ⟨kept, rest, hitems, hkept, hrest⟩ := hends.exists_pieces
  have hsame := items_left hends.body hends.braces h
  have hpieces := hsame.value.pieces
  rw [hitems] at hpieces
  obtain ⟨lost, hcut, hlost⟩ := hpieces.split (congrArg List.length hkept)
  obtain ⟨hbraces, rfl, htally⟩ := hlost.behind
  rw [hrest] at hbraces
  have hcount : rest.length = more.length + 1 := by
    rw [hbraces, List.length_map, List.length_cons]
  have hlacking := congrArg Tally.lacking htally
  simp only [Nat.zero_add, hcount] at hlacking
  rw [hcount] at hcut
  exact ⟨kept, hbraces ▸ hitems, hcut, hlacking⟩

/-- A style sheet without errors lacks its last braces, and nothing else, where it is cut in front
of them. -/
theorem parse_unclosed (h : Diagnostic.hasErrors (parse text).diagnostics = false)
    (hends : EndsInBraces text front first more) :
    LacksBraces text (Lexeme.textOf front ++ Gap.textOf first.leading) first more := by
  have hreports := scan_reports_of_hasErrors h
  have hscan := Lexemes.scan_front hends.body hreports
  have hsame := Unclosed.items_left hends.body hends.braces h
  have hclean := (good_itemsOf h).clean
  obtain ⟨kept, hpieces, hcut, hcount⟩ := Unclosed.pieces_left h hends
  refine ⟨?_, ?_, ?_, ?_⟩
  · rw [diagnostics_parse, hscan, List.nil_append, Diagnostic.errors_sorted hsame.errors, hcount]
    rfl
  · have hitem := hsame.warnings
    rw [diagnostics_parse, diagnostics_parse, hscan, hreports, List.nil_append, List.nil_append]
    unfold Diagnostic.warnings at hitem ⊢
    rw [Diagnostic.sorted_filter, Diagnostic.sorted_filter, hitem,
      List.filter_eq_self.mpr fun d hd => by rw [hclean d hd]; rfl]
  · rw [kinds_parse, kinds_parse, hsame.value.kinds]
  · refine ⟨kept.map Piece.token, (Lexemes.scan text).final.leading.map Gap.trivia, ?_, ?_⟩
    · rw [tokens_parse, piecesOf_draftOf, hpieces, List.map_append, List.map_append,
        List.map_map, List.map_singleton, token_final]
      rfl
    · rw [tokens_parse, piecesOf_draftOf, hcut, hscan, List.map_append, List.map_append,
        List.map_replicate, List.map_singleton]
      rfl

end

/-- A text that ends within a value, the block of a trigger and the block of a rule set. -/
def openText : Text := "a\x7btrigger event b\x7bset c\x7bd".toList

/-- A closing brace behind trivia. -/
def Lexeme.closer (leading : List Gap) : Lexeme := ⟨leading, .rightBrace, ['}'], []⟩

theorem parse_unclosed_small :
    Diagnostic.hasErrors (parse (openText ++ "\x7d\x7d\n\x7d".toList)).diagnostics = false ∧
      EndsInBraces (openText ++ "\x7d\x7d\n\x7d".toList) (Lexemes.scan openText).body
        (.closer []) [.closer [], .closer [⟨.endOfLine, ['\n']⟩]] ∧
      LacksBraces (openText ++ "\x7d\x7d\n\x7d".toList) openText
        (.closer []) [.closer [], .closer [⟨.endOfLine, ['\n']⟩]] := by
  have h : Diagnostic.hasErrors (parse (openText ++ "\x7d\x7d\n\x7d".toList)).diagnostics
      = false := by
    rw [parse, Diagnostic.hasErrors_sorted]
    decide +kernel
  have hends : EndsInBraces (openText ++ "\x7d\x7d\n\x7d".toList) (Lexemes.scan openText).body
      (.closer []) [.closer [], .closer [⟨.endOfLine, ['\n']⟩]] :=
    ⟨by decide +kernel, by decide +kernel, by decide +kernel⟩
  have hcut : Lexeme.textOf (Lexemes.scan openText).body ++ Gap.textOf (Lexeme.closer []).leading
      = openText := by
    decide +kernel
  have hlacks := parse_unclosed h hends
  rw [hcut] at hlacks
  exact ⟨h, hends, hlacks⟩

end Stylesheet
