import Mathlib.Data.List.Forall2
import Stylesheet.Proofs.Lossless
import Stylesheet.Proofs.Pairing.Sheets

/-!
# What the structure of a style sheet depends on

The structure depends on the kinds of the lexemes, and within selectors on which of them touch;
neither the text of a lexeme nor the trivia around it has a say. Texts that are alike in this are
read alike: the same pieces are made from the same lexemes, and what is missing or unexpected is
reported at the same lexemes.

Results:
* `Lexemes.Like`: lexemes of the same kinds, which touch alike where it matters.
* `Lexemes.Like.pairing`: texts that are alike are paired, and end together.
* `parse_like`: texts that are alike are read alike.
-/
namespace Stylesheet

/-! ## Touching -/

namespace Lexeme

/-- Whether the lexeme at an index touches the one before it. The first one touches none. -/
def touchesAt (ls : List Lexeme) : Nat → Bool
  | 0 => false
  | i + 1 =>
    match ls.drop i with
    | l :: next :: _ => l.touches next
    | _ => false

/-- Whether it matters for the lexeme at an index that it touches the one before it: marks of
selectors, and names behind them. -/
def touchMattersAt (ls : List Lexeme) : Nat → Bool
  | 0 => false
  | i + 1 =>
    kindAt ls (i + 1) ∈ [Kind.period, .hash, .colon, .exclamationMark] ||
      (kindAt ls (i + 1)).isName && kindAt ls i ∈ [Kind.period, .hash, .colon]

end Lexeme

/-- Texts are alike if their lexemes are of the same kinds and touch where the others do, as far as
it matters. -/
structure Lexemes.Like (a b : Lexemes) : Prop where
  kinds : a.all.map Lexeme.kind = b.all.map Lexeme.kind
  touching : ∀ i < a.all.length, Lexeme.touchMattersAt a.all i →
    Lexeme.touchesAt a.all i = Lexeme.touchesAt b.all i

/-- A token without its text and trivia. -/
def Token.outline (t : Token) : Kind × Bool := (t.kind, t.isMissing)

/-- Reports of what is missing or unexpected. -/
def Diagnostic.isStructural (d : Diagnostic) : Bool :=
  d.code = .missingToken || d.code = .unexpectedToken

namespace Lexemes

variable {a b : Lexemes}

/-- Where the text of the lexeme at an index starts. -/
def startAt? (ls : Lexemes) (i : Nat) : Option Nat :=
  ((Lexeme.located 0 ls.all)[i]?).map Prod.fst

/-- Reports with the same code, on the same lexeme. -/
def SameReport (a b : Lexemes) (d d' : Diagnostic) : Prop :=
  d.code = d'.code ∧ ∃ i, a.startAt? i = some d.span.start ∧ b.startAt? i = some d'.span.start

/-! ## Cursors in a text -/

theorem length_all (ls : Lexemes) : ls.all.length = ls.body.length + 1 := by simp [all]

theorem getElem?_located (offset : Nat) (ls : List Lexeme) (i : Nat) :
    (Lexeme.located offset ls)[i]?
      = ls[i]?.map fun l => (offset + Lexeme.widthOf (ls.take i) + l.leadingWidth, l) := by
  induction ls generalizing offset i with
  | nil => rfl
  | cons l ls ih =>
    cases i with
    | zero => simp [Lexeme.located, Lexeme.widthOf]
    | succ i => simp [Lexeme.located, Lexeme.widthOf, ih, Nat.add_assoc]

/-- The next lexeme is the one at the index, and behind the last one it is the final one. -/
theorem next_advance (ls : Lexemes) (i : Nat) :
    ls.all[min i ls.body.length]? = some ((Cursor.ofLexemes ls).advance i).next := by
  show (ls.body ++ [ls.final])[min i ls.body.length]? = some ((ls.body.drop i).headD ls.final)
  by_cases h : i < ls.body.length
  · rw [Nat.min_eq_left h.le, List.getElem?_append_left h, List.drop_eq_getElem_cons h]
    simp [h]
  · have h := Nat.not_lt.mp h
    rw [Nat.min_eq_right h, List.drop_eq_nil_of_le h]
    simp

theorem startAt_advance (ls : Lexemes) (i : Nat) :
    ls.startAt? (min i ls.body.length)
      = some ((Cursor.ofLexemes ls).advance i).span.start := by
  have htake : ls.all.take (min i ls.body.length) = ls.body.take i := by
    rw [all, List.take_append_of_le_length (Nat.min_le_right _ _)]
    rcases Nat.le_total i ls.body.length with h | h
    · rw [Nat.min_eq_left h]
    · rw [Nat.min_eq_right h, List.take_length, List.take_of_length_le h]
  rw [startAt?, getElem?_located, next_advance, htake]
  rfl

/-- Behind the lexeme at an index. -/
theorem behind_advance (ls : Lexemes) {i : Nat} (h : i < ls.body.length) :
    ((Cursor.ofLexemes ls).advance (i + 1)).behind = some ls.body[i] := by
  show (ls.body.take (i + 1)).getLast?.or none = some ls.body[i]
  rw [List.take_succ_eq_append_getElem h, List.getLast?_append]
  rfl

theorem touching_advance (ls : Lexemes) {i : Nat} (h : i ≤ ls.body.length) :
    ((Cursor.ofLexemes ls).advance i).touching = Lexeme.touchesAt ls.all i := by
  cases i with
  | zero => rfl
  | succ i =>
    have hnext := next_advance ls (i + 1)
    rw [Nat.min_eq_left h] at hnext
    obtain ⟨hlt, hget⟩ := List.getElem?_eq_some_iff.mp hnext
    have hfirst : ls.all[i] = ls.body[i] := List.getElem_append_left h
    rw [Cursor.touching, behind_advance ls h, Lexeme.touchesAt,
      List.drop_eq_getElem_cons (Nat.lt_of_succ_lt hlt), List.drop_eq_getElem_cons hlt, hget, hfirst]
    rfl

theorem kind_advance (ls : Lexemes) {i : Nat} (h : i < ls.body.length) :
    ((Cursor.ofLexemes ls).advance i).kind = Lexeme.kindAt ls.all i := by
  show (((ls.body.drop i)[0]?).map Lexeme.kind).getD .eof = _
  rw [Lexeme.kindAt, List.getElem?_drop, Nat.add_zero, all, List.getElem?_append_left h]

/-- What matters at a cursor matters at its index, if there is a lexeme before it. -/
theorem touchMattersAt_of_touchMatters (ls : Lexemes) {i : Nat} (hi : i + 1 < ls.body.length)
    (h : ((Cursor.ofLexemes ls).advance (i + 1)).TouchMatters) :
    Lexeme.touchMattersAt ls.all (i + 1) := by
  have hlt : i < ls.body.length := by omega
  have hbehind : Lexeme.kindAt ls.all i = ls.body[i].kind := by
    rw [Lexeme.kindAt, all, List.getElem?_append_left hlt, List.getElem?_eq_getElem hlt]
    rfl
  unfold Cursor.TouchMatters at h
  rw [kind_advance ls hi, behind_advance ls (by omega)] at h
  unfold Lexeme.touchMattersAt
  rw [Bool.or_eq_true, Bool.and_eq_true, decide_eq_true_iff, decide_eq_true_iff, hbehind]
  refine h.imp_right fun h => h.imp_right ?_
  rintro ⟨l, hl, hk⟩
  cases hl
  exact hk

/-! ## Texts that are alike -/

namespace Like

theorem kinds_body (h : a.Like b) : b.body.map Lexeme.kind = a.body.map Lexeme.kind := by
  have hkinds := h.kinds
  rw [all, all, List.map_append, List.map_append] at hkinds
  exact (List.append_inj_left' hkinds rfl).symm

theorem length_body (h : a.Like b) : b.body.length = a.body.length := by
  simpa using congrArg List.length h.kinds_body

theorem touching_eq (h : a.Like b) (i : Nat)
    (ht : ((Cursor.ofLexemes a).advance i).TouchMatters) :
    ((Cursor.ofLexemes a).advance i).touching = ((Cursor.ofLexemes b).advance i).touching := by
  have hlt : i < a.body.length := by
    by_contra hn
    have hkind : ((Cursor.ofLexemes a).advance i).kind = .eof := by
      show Lexeme.kindAt (a.body.drop i) 0 = .eof
      rw [List.drop_eq_nil_of_le (Nat.not_lt.mp hn)]
      rfl
    unfold Cursor.TouchMatters at ht
    rw [hkind] at ht
    rcases ht with ht | ⟨ht, -⟩ <;> revert ht <;> decide
  have hlen := h.length_body
  rw [touching_advance a hlt.le, touching_advance b (by omega)]
  cases i with
  | zero => rfl
  | succ i =>
    exact h.touching (i + 1) (by rw [length_all]; omega) (touchMattersAt_of_touchMatters a hlt ht)

/-- Structural reports at the same index say the same. -/
theorem sameReport (h : a.Like b) (i : Nat) {p q : Problem} (hp : p.code = q.code)
    {s s' : Span} (hs : s.start = ((Cursor.ofLexemes a).advance i).span.start)
    (hs' : s'.start = ((Cursor.ofLexemes b).advance i).span.start) :
    List.Forall₂ (SameReport a b) ([p.reportAt s].filter Diagnostic.isStructural)
      ([q.reportAt s'].filter Diagnostic.isStructural) := by
  have hcode : (p.reportAt s).isStructural = (q.reportAt s').isStructural := by
    show (decide (p.code = _) || decide (p.code = _)) = _
    rw [hp]
    rfl
  rw [List.filter_singleton, List.filter_singleton, hcode]
  cases (q.reportAt s').isStructural with
  | false => exact .nil
  | true =>
    refine .cons ⟨hp, min i a.body.length, ?_, ?_⟩ .nil
    · rw [startAt_advance]
      exact congrArg some hs.symm
    · rw [← h.length_body, startAt_advance]
      exact congrArg some hs'.symm

theorem structural_loopReports (c : Cursor) :
    c.loopReports.filter Diagnostic.isStructural = [] := by
  unfold Cursor.loopReports
  split <;> rfl

/-- Texts that are alike are paired, and end together. -/
def pairing (h : a.Like b) : Pairing where
  first := .ofLexemes a
  second := .ofLexemes b
  more := []
  Whole := True
  Alike r r' := List.Forall₂ (SameReport a b) (r.filter Diagnostic.isStructural)
    (r'.filter Diagnostic.isStructural)
  kinds_eq := by
    rw [List.append_nil]
    exact h.kinds_body
  more_eq_nil _ := List.append_nil []
  touching_eq := h.touching_eq
  alike_nil := .nil
  alike_append ha hb := by
    rw [List.filter_append, List.filter_append]
    exact List.rel_append ha hb
  alike_span _ i p hp := h.sameReport i (hp _ _) rfl rfl
  alike_gap _ i p := h.sameReport i rfl rfl rfl
  alike_loop i _ := by
    rw [structural_loopReports, structural_loopReports]
    exact .nil

/-- The drafts of texts that are alike have the same shape, and the same is reported of them. -/
theorem same_draftOf (h : a.Like b) :
    (Slots.ofList (draftOf a).value).map id Piece.shape
        = (Slots.ofList (draftOf b).value).map id Piece.shape ∧
      List.Forall₂ (SameReport a b) ((draftOf a).reports.filter Diagnostic.isStructural)
        ((draftOf b).reports.filter Diagnostic.isStructural) := by
  have hstep : h.pairing.Steady (Option.map Draft.shape) 1 0 Production.documentStep :=
    h.pairing.steady_documentStep
  have hsame := (Pairing.steady_many hstep _ _).same h.pairing.meets_start (.inl trivial)
  rw [draftOf, draftOf, Production.document_apply, Production.document_apply]
  refine ⟨?_, hsame.reports⟩
  have hlist := Draft.shape_list hsame.value
  rw [Slots.map_ofList, Slots.map_ofList]
  simp only [List.map_cons, List.map_nil]
  exact congrArg (fun s => Slots.ofList [s, _]) hlist

end Like

end Lexemes

/-! ## Parses -/

namespace Piece

/-- Whether a piece of a shape is missing: no lexeme is there to make it from. -/
theorem outline_token (p : Piece) : p.token.outline = (p.shape.1, p.shape.2 == 0) := by
  cases p <;> rfl

end Piece

/-- The token that a mark stands for. -/
def Mark.token (ls : List Lexeme) (m : Mark) : Token := (m.piece ls).token

/-- The reports on structure of a text, in the order they were made. -/
def structuralReports (text : Text) : List Diagnostic :=
  (draftOf (Lexemes.scan text)).reports.filter Diagnostic.isStructural

/-- The shape of what is read of a text. -/
def shapeOf (text : Text) : Slots Kind (Kind × Nat) :=
  (Slots.ofList (draftOf (Lexemes.scan text)).value).map id Piece.shape

theorem lexemeCount_shapeOf (text : Text) :
    (shapeOf text).lexemeCount = (Lexemes.scan text).all.length := by
  rw [shapeOf, Slots.lexemeCount_shape, Draft.tokens_ofList, lexemes_draftOf]

/-- The draft of a text is its marked shape. -/
theorem draftOf_marked (text : Text) :
    Slots.ofList (draftOf (Lexemes.scan text)).value
      = ((shapeOf text).marked 0).map id (Mark.piece (Lexemes.scan text).all) := by
  have h := Slots.eq_marked (Slots.ofList (draftOf (Lexemes.scan text)).value) [] []
  rw [Draft.tokens_ofList, lexemes_draftOf, List.append_nil, List.nil_append] at h
  exact h.symm

/-- So is its tree. -/
theorem slots_marked (text : Text) :
    (parse text).tree.slots
      = ((shapeOf text).marked 0).map id (Mark.token (Lexemes.scan text).all) := by
  show (Slots.ofList (draftOf (Lexemes.scan text)).value).map id Piece.token = _
  rw [draftOf_marked, Slots.map_map]
  rfl

theorem outline_slots (text : Text) :
    (parse text).tree.slots.map id Token.outline
      = (shapeOf text).map id fun piece => (piece.1, piece.2 == 0) := by
  show ((Slots.ofList (draftOf (Lexemes.scan text)).value).map id Piece.token).map id _ = _
  rw [shapeOf, Slots.map_map, Slots.map_map]
  congr 1
  funext p
  exact p.outline_token

/-- What is read of two texts differs in texts and trivia only. -/
structure ReadAlike (t u : Text) : Prop where
  /-- The trees differ in no kind, no empty slot and no missing token. -/
  outline : (parse t).tree.slots.map id Token.outline = (parse u).tree.slots.map id Token.outline
  /-- One tree of marks stands for both. Its marks are the lexemes from the first to the last, and
  the tree of each text is made from the lexemes of that text as the marks say. -/
  marks : ∃ marks : Slots Kind Mark,
    marks.tokens.flatMap Mark.indices = List.range (Lexemes.scan t).all.length ∧
      ∀ text ∈ [t, u],
        Slots.ofList (draftOf (Lexemes.scan text)).value
            = marks.map id (Mark.piece (Lexemes.scan text).all) ∧
          (parse text).tree.slots = marks.map id (Mark.token (Lexemes.scan text).all)
  /-- What is missing or unexpected is reported at the same lexemes. -/
  reports : List.Forall₂ (Lexemes.SameReport (Lexemes.scan t) (Lexemes.scan u))
    (structuralReports t) (structuralReports u)

/-- Texts whose lexemes are alike are read alike. -/
theorem parse_like (t u : Text) (h : (Lexemes.scan t).Like (Lexemes.scan u)) : ReadAlike t u := by
  obtain ⟨hshape, hreports⟩ := h.same_draftOf
  -- A draft is its shape with the lexemes counted off along it: one shape, one tree of marks.
  have hshape : shapeOf t = shapeOf u := hshape
  refine ⟨?_, ⟨(shapeOf t).marked 0, ?_, fun text ht => ?_⟩, hreports⟩
  · rw [outline_slots, outline_slots, hshape]
  · rw [Slots.indices_marked, lexemeCount_shapeOf, List.range_eq_range']
  · have hsame : shapeOf t = shapeOf text := by
      rcases List.mem_pair.mp ht with rfl | rfl
      · rfl
      · exact hshape
    rw [hsame]
    exact ⟨draftOf_marked text, slots_marked text⟩

theorem parse_like_small :
    (Lexemes.scan "a.b{c:1 2}".toList).Like (Lexemes.scan "dd.e\n/* */ {f: 33  44 }".toList) ∧
      ReadAlike "a.b{c:1 2}".toList "dd.e\n/* */ {f: 33  44 }".toList := by
  have h : (Lexemes.scan "a.b{c:1 2}".toList).Like
      (Lexemes.scan "dd.e\n/* */ {f: 33  44 }".toList) :=
    ⟨by decide +kernel, by decide +kernel⟩
  exact ⟨h, parse_like _ _ h⟩

end Stylesheet
