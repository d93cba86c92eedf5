import Stylesheet.Proofs.Joining.Runs
import Stylesheet.Proofs.Recognition.Sheets

/-!
# The drafts of two style sheets in a row

Results:
* `itemsOf_joined`: the items of the first text are followed by those of the second one, in shape,
  and so are the reports on them.
* `draftSlots_joined`: so are their lexemes, with more trivia in front of the second text.
-/
namespace Stylesheet

open Production

/-- The draft of a text, its slots put in a row. -/
def draftSlots (text : Text) : Slots Kind Piece :=
  Slots.ofList (draftOf (Lexemes.scan text)).value

theorem reports_draftOf (text : Text) :
    (draftOf (Lexemes.scan text)).reports = (itemsOf text).reports := by
  rw [draftOf_scan]

/-- What is reported on a text: what is wrong with its lexemes, then with its items. -/
theorem diagnostics_parse (text : Text) : (parse text).diagnostics
    = Diagnostic.sorted ((Lexemes.scan text).reports ++ (itemsOf text).reports) := by
  rw [← reports_draftOf]
  rfl

theorem draftSlots_eq (text : Text) : draftSlots text = .document (itemsOf text).value (endOf text) := by
  rw [draftSlots, draftOf_scan]
  exact Slots.ofList_document _ _

theorem tokens_draftSlots (text : Text) :
    (draftSlots text).tokens = Draft.piecesOf (draftOf (Lexemes.scan text)).value :=
  Draft.tokens_ofList _

/-- The pieces of a draft are its items' and the final one. -/
theorem piecesOf_draftOf (text : Text) :
    Draft.piecesOf (draftOf (Lexemes.scan text)).value
      = (itemsOf text).value.flatMap Tree.tokens ++ [.run .eof (Lexemes.scan text).final []] := by
  rw [← tokens_draftSlots, draftSlots_eq, Slots.tokens_document]
  rfl

theorem lexemes_itemsOf (text : Text) :
    ((itemsOf text).value.flatMap Tree.tokens).flatMap Piece.lexemes = (Lexemes.scan text).body := by
  have h := lexemes_draftOf text
  rw [piecesOf_draftOf, List.flatMap_append, Lexemes.all] at h
  exact List.append_cancel_right h

/-- A style sheet opens with a token that is present; in an empty one it is the final one. -/
theorem open_draftOf (text : Text) :
    Piece.Open (Draft.piecesOf (draftOf (Lexemes.scan text)).value) := by
  rw [piecesOf_draftOf]
  have hopens := many_documentStep_opens (.ofLexemes (Lexemes.scan text))
  cases h : (itemsOf text).value with
  | nil => exact ⟨_, _, _, _, rfl⟩
  | cons d rest =>
    have hd : d.Opens := hopens d (by
      show d ∈ (itemsOf text).value.head?
      rw [h]
      rfl)
    rw [List.flatMap_cons, List.append_assoc]
    exact Piece.Open.append hd _

/-- A text without an error is read without one. -/
theorem good_itemsOf {text : Text} (h : Diagnostic.hasErrors (parse text).diagnostics = false) :
    (itemsOf text).Good := by
  obtain ⟨-, hclean⟩ := (hasErrors_eq_false_iff text).mp h
  rw [draftOf_scan] at hclean
  exact ⟨hclean, faults_itemsOf text⟩

theorem scan_reports_of_hasErrors {text : Text}
    (h : Diagnostic.hasErrors (parse text).diagnostics = false) :
    (Lexemes.scan text).reports = [] :=
  ((hasErrors_eq_false_iff text).mp h).1

theorem commentsClosed_of_hasErrors {text : Text}
    (h : Diagnostic.hasErrors (parse text).diagnostics = false) :
    CommentsClosed (Lexemes.scan text).reports := by
  rw [scan_reports_of_hasErrors h]
  exact commentsClosed_nil

theorem Slots.document_inj {α : Type} {xs ys : List (Tree Kind α)} {f g : Tree Kind α}
    (h : document xs f = document ys g) : xs = ys ∧ f = g := by
  cases xs with
  | nil =>
    cases ys with
    | nil =>
      cases h
      exact ⟨rfl, rfl⟩
    | cons y ys => cases h
  | cons x xs =>
    cases ys with
    | nil => cases h
    | cons y ys =>
      simp only [document, Slots.filled.injEq, Tree.node.injEq, true_and, and_true] at h
      have hlist := congrArg Slots.toList h.1
      rw [Slots.toList_ofList, Slots.toList_ofList] at hlist
      exact ⟨List.map_injective_iff.mpr (Option.some_injective _) hlist, h.2⟩

/-! ## A line end between two texts -/

section Joined

variable {a : Text} (h : Diagnostic.hasErrors (parse a).diagnostics = false)
  (hr : a.getLast? ≠ some '\r') (b : Text)

include h hr

/-- Of two texts the items of the first one are read, then those of the second one. -/
theorem itemsOf_joined :
    (itemsOf (a ++ '\n' :: b)).value.map Draft.shape
        = (itemsOf a).value.map Draft.shape ++ (itemsOf b).value.map Draft.shape ∧
      (itemsOf (a ++ '\n' :: b)).reports
        = (itemsOf a).reports ++ (itemsOf b).reports.map (·.shift (Text.width a + 1)) ∧
      ∀ d ∈ (itemsOf a).reports, d.span.start ≤ Text.width a := by
  have hscan := Lexemes.scan_append b hr (commentsClosed_of_hasErrors h)
  have hne : (Lexemes.scan a).gapsBehind ≠ [] := by simp [Lexemes.gapsBehind]
  let more := (Lexemes.scan b).lead (Lexemes.scan a).gapsBehind
  let K := (Lexemes.scan a).continued more.body more.final
  let M := (Lexemes.scan b).moved (Lexeme.widthOf (Lexemes.scan a).body)
    (Lexemes.scan a).body.getLast? hne
  have hsecond : K.second = .ofLexemes (Lexemes.scan (a ++ '\n' :: b)) := by
    rw [hscan]
    rfl
  have hbehind : K.second.advance K.first.ahead.length = M.second := by
    simp [K, M, more, Lexemes.continued, Lexemes.moved, Lexemes.before, Lexemes.behindGaps,
      Cursor.advance, Cursor.ofLexemes]
  have hstep : M.Steady (Option.map Draft.shape) 1 0 documentStep := M.steady_documentStep
  have hmore := (Pairing.steady_many hstep _ _).same M.meets_start (.inl trivial)
  obtain ⟨⟨items, hitems, hvalue⟩, ⟨reports, ⟨rfl, hbound⟩, hreports⟩, -⟩ :=
    many_continued K id _ _ K.meets_start (good_itemsOf h) fun l hl =>
      (Lexemes.kind_of_mem_body hl).2
  rw [hbehind, hsecond] at hvalue hreports
  refine ⟨?_, ?_, fun d hd => ?_⟩
  · rw [itemsOf, hvalue, List.map_append, hitems, ← hmore.value]
    rfl
  · rw [itemsOf, hreports, hmore.reports, Lexemes.width_gapsBehind]
    rfl
  · have := hbound d hd
    have := Lexemes.width_body a
    omega

theorem lexemes_joined :
    (Lexemes.scan (a ++ '\n' :: b)).all = (Lexemes.scan a).body ++
      (Lexemes.scan b).all.modifyHead (Lexeme.lead (Lexemes.scan a).gapsBehind) := by
  rw [Lexemes.scan_append b hr (commentsClosed_of_hasErrors h), ← Lexemes.all_lead]
  simp [Lexemes.all]

/-- The draft of two texts: the items of the second one follow those of the first one, with more
trivia in front of them. -/
theorem draftSlots_joined :
    let front := Piece.lead (Lexemes.scan a).gapsBehind
    let items := (itemsOf b).value.modifyHead (Tree.mapFirst front)
    ∃ final, (draftSlots b).mapFirst front = .document items final ∧
      draftSlots (a ++ '\n' :: b) = .document ((itemsOf a).value ++ items) final := by
  intro front items
  obtain ⟨hshapes, -, -⟩ := itemsOf_joined h hr b
  have hfront : ∀ d ∈ (itemsOf b).value.head?, Tree.tokens d ≠ [] := fun d hd => by
    obtain ⟨kind, first, more, rest, hd⟩ := many_documentStep_opens _ d hd
    simp [hd]
  have hled := Slots.mapFirst_document front hfront (.run .eof (Lexemes.scan b).final [])
  have hend : endOf b = .token (.run .eof (Lexemes.scan b).final []) := rfl
  rw [← hend, ← draftSlots_eq] at hled
  -- Slots are the same if they have the same shape and are made from the same lexemes.
  refine ⟨_, hled, Slots.eq_of_shape ?_ ?_⟩
  · have hshape := congrArg (Slots.map id Piece.shape) hled
    rw [Slots.map_mapFirst (g := id) _ (Piece.shape_lead _), Slots.mapFirst_id, draftSlots_eq,
      Slots.map_document, Slots.map_document] at hshape
    obtain ⟨hitems, hfinal⟩ := Slots.document_inj hshape
    rw [draftSlots_eq, Slots.map_document, Slots.map_document, List.map_append, ← hitems, ← hfinal]
    exact congrArg (Slots.document · _) hshapes
  · have htokens := Slots.tokens_mapFirst front (draftSlots b)
    rw [hled, Slots.tokens_document, tokens_draftSlots] at htokens
    have hmore := congrArg (List.flatMap Piece.lexemes) htokens
    rw [(open_draftOf b).lexemes_modifyHead, lexemes_draftOf] at hmore
    rw [tokens_draftSlots, lexemes_draftOf, lexemes_joined h hr, ← hmore, ← lexemes_itemsOf a,
      ← List.flatMap_append, ← List.append_assoc, ← List.flatMap_append, Slots.tokens_document]

/-- Its pieces are those of the first text, the final one apart, and those of the second one. -/
theorem pieces_joined :
    Draft.piecesOf (draftOf (Lexemes.scan (a ++ '\n' :: b))).value
      = (itemsOf a).value.flatMap Tree.tokens ++
        (Draft.piecesOf (draftOf (Lexemes.scan b)).value).modifyHead
          (Piece.lead (Lexemes.scan a).gapsBehind) := by
  obtain ⟨final, hled, hwhole⟩ := draftSlots_joined h hr b
  have htokens := Slots.tokens_mapFirst (Piece.lead (Lexemes.scan a).gapsBehind) (draftSlots b)
  rw [hled, Slots.tokens_document, tokens_draftSlots] at htokens
  rw [← tokens_draftSlots, hwhole, Slots.tokens_document, List.flatMap_append, List.append_assoc,
    htokens]

end Joined

end Stylesheet
