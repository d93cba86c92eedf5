import Stylesheet.Proofs.Joining.Fronts
import Stylesheet.Proofs.Lossless
import Stylesheet.Proofs.Pairing.Sheets

/-!
# Reading two style sheets in a row

A style sheet without errors is read the same if lexemes follow behind it: each item ends with a
lexeme of its own, so nothing is decided by what comes after. Behind it the reading of the next
style sheet starts afresh: the lexeme in front touches nothing.

Results:
* `Lexemes.continued`: lexemes are paired with themselves where more follow.
* `Lexemes.moved`: lexemes are paired with themselves some bytes further on, with trivia in front.
* `Production.many_continued`: the items of the first style sheet come first.
-/
namespace Stylesheet

/-! ## With more behind -/

namespace Lexeme

theorem widthOf_take_le (ls : List Lexeme) {i : Nat} (h : i < ls.length) :
    widthOf (ls.take i) + ls[i].leadingWidth ≤ widthOf ls := by
  have hsplit := congrArg widthOf (List.take_append_drop i ls)
  rw [widthOf_append, List.drop_eq_getElem_cons h, widthOf] at hsplit
  have : ls[i].leadingWidth ≤ ls[i].fullWidth := by
    unfold fullWidth
    omega
  omega

end Lexeme

namespace Cursor

variable {c : Cursor}

/-- At the end of a text touching does not matter. -/
theorem not_touchMatters (h : c.ahead = []) : ¬c.TouchMatters := by
  have hkind : c.kind = .eof := by simp [kind, kindAt, Lexeme.kindAt, h]
  unfold TouchMatters
  rw [hkind]
  rintro (ht | ⟨ht, -⟩) <;> revert ht <;> decide

end Cursor

namespace Lexemes

/-- The cursor in front of lexemes where more of them follow. -/
def before (ls : Lexemes) (more : List Lexeme) (final : Lexeme) : Cursor :=
  ⟨0, none, ls.body ++ more, final⟩

variable (ls : Lexemes) (more : List Lexeme) (final : Lexeme)

/-- What is next among the first lexemes is next where more follow. -/
theorem next_before {i : Nat} (h : i < ls.body.length) :
    ((ls.before more final).advance i).next = ((Cursor.ofLexemes ls).advance i).next ∧
      ((ls.before more final).advance i).offset = ((Cursor.ofLexemes ls).advance i).offset ∧
      ((ls.before more final).advance i).behind = ((Cursor.ofLexemes ls).advance i).behind := by
  have htake : (ls.body ++ more).take i = ls.body.take i := List.take_append_of_le_length h.le
  have hdrop : (ls.body ++ more).drop i = ls.body.drop i ++ more := List.drop_append_of_le_length h.le
  simp only [before, Cursor.ofLexemes, Cursor.advance, Cursor.next, htake, hdrop, and_self, and_true]
  rw [List.drop_eq_getElem_cons h]
  rfl

/-- Lexemes and the same lexemes where more of them follow. What is reported of the ones is
reported of the others, within their text. -/
def continued : Pairing where
  first := .ofLexemes ls
  second := ls.before more final
  more := more.map Lexeme.kind
  Whole := False
  Alike r r' := r' = r ∧ ∀ d ∈ r, d.span.start ≤ Lexeme.widthOf ls.body
  kinds_eq := by simp [Cursor.kinds, before, Cursor.ofLexemes]
  more_eq_nil := False.elim
  touching_eq i ht := by
    have hi : i < ls.body.length := by
      by_contra hn
      exact Cursor.not_touchMatters (List.drop_eq_nil_of_le (Nat.not_lt.mp hn)) ht
    obtain ⟨hnext, -, hbehind⟩ := ls.next_before more final hi
    rw [Cursor.touching, Cursor.touching, hnext, hbehind]
  alike_nil := ⟨rfl, by simp⟩
  alike_append ha hb := by
    refine ⟨by rw [ha.1, hb.1], fun d hd => ?_⟩
    exact (List.mem_append.mp hd).elim (ha.2 d) (hb.2 d)
  alike_span := False.elim
  alike_gap := False.elim
  alike_loop i hi := by
    have hi : i < ls.body.length := hi.resolve_left id
    obtain ⟨hnext, hoffset, -⟩ := ls.next_before more final hi
    refine ⟨by simp only [Cursor.loopReports, Cursor.span, hnext, hoffset], fun d hd => ?_⟩
    have hle := Lexeme.widthOf_take_le ls.body hi
    have hstart : d.span.start = ((Cursor.ofLexemes ls).advance i).span.start := by
      unfold Cursor.loopReports at hd
      split at hd
      · cases hd
      · rw [List.mem_singleton.mp hd]
        rfl
    rw [hstart]
    simp only [Cursor.span, Cursor.next, Cursor.advance, Cursor.ofLexemes, Span.start_ofWidth,
      Nat.zero_add]
    rw [List.drop_eq_getElem_cons hi]
    exact hle

end Lexemes

/-! ## With trivia in front -/

namespace Cursor

/-- Two cursors in front of the same lexeme, but for its place and the trivia in front of it. -/
structure Moved (bytes : Nat) (c c' : Cursor) : Prop where
  text : c'.next.text = c.next.text
  span : c'.span = c.span.shift bytes
  touching : c'.touching = c.touching

theorem Moved.loopReports {bytes : Nat} {c c' : Cursor} (h : c.Moved bytes c') :
    c'.loopReports = c.loopReports.map (·.shift bytes) := by
  unfold Cursor.loopReports
  rw [h.text, h.span]
  split <;> rfl

/-- Cursors in front of the same lexemes, behind lexemes with the same trivia behind them. -/
theorem Moved.advance {bytes : Nat} {c c' : Cursor} (ha : c'.ahead = c.ahead)
    (hf : c'.final = c.final) (ho : c'.offset = c.offset + bytes)
    (hb : c'.behind.map Lexeme.trailing = c.behind.map Lexeme.trailing) (i : Nat) :
    (c.advance i).Moved bytes (c'.advance i) := by
  have hnext : (c'.advance i).next = (c.advance i).next := by
    simp only [Cursor.next, Cursor.advance, ha, hf]
  have hoffset : (c'.advance i).offset = (c.advance i).offset + bytes := by
    simp only [Cursor.advance, ha, ho]
    omega
  have hbehind : (c'.advance i).behind.map Lexeme.trailing
      = (c.advance i).behind.map Lexeme.trailing := by
    simp only [Cursor.advance, ha]
    cases (c.ahead.take i).getLast? with
    | none => exact hb
    | some l => rfl
  refine ⟨by rw [hnext], ?_, ?_⟩
  · unfold Cursor.span
    rw [hnext, hoffset]
    simp [Span.ofWidth, Span.shift]
    omega
  · have htouching (c : Cursor) : c.touching
        = ((c.behind.map Lexeme.trailing).map (·.isEmpty && c.next.leading.isEmpty)).getD false := by
      simp [Cursor.touching, Lexeme.touches, Function.comp_def]
    rw [htouching, htouching, hnext, hbehind]

/-- Without lexemes ahead a cursor stands still. -/
theorem advance_of_nil {c : Cursor} (h : c.ahead = []) (n : Nat) : c.advance n = c := by
  have hpass := c.passes_take n
  rw [h, List.take_nil] at hpass
  exact hpass.stand

end Cursor

namespace Lexemes

variable (ls : Lexemes) {gaps : List Gap} (offset : Nat) (behind : Option Lexeme)

/-- The cursor at an offset in front of lexemes with more trivia in front of them. -/
def behindGaps (gaps : List Gap) : Cursor :=
  ⟨offset, behind, (ls.lead gaps).body, (ls.lead gaps).final⟩

/-- Trivia in front moves the first lexeme, and nothing in front of it is touched any more. -/
theorem moved_start (h : gaps ≠ []) :
    (Cursor.ofLexemes ls).Moved (offset + Text.width (Gap.textOf gaps))
      (ls.behindGaps offset behind gaps) := by
  have hnext : (ls.behindGaps offset behind gaps).next = (Cursor.ofLexemes ls).next.lead gaps := by
    unfold behindGaps lead Cursor.ofLexemes Cursor.next
    cases ls.body <;> rfl
  have hwidth (l : Lexeme) : (l.lead gaps).leadingWidth
      = Text.width (Gap.textOf gaps) + l.leadingWidth := by
    simp [Lexeme.lead, Lexeme.leadingWidth, Gap.textOf]
  refine ⟨by rw [hnext]; rfl, ?_, ?_⟩
  · unfold Cursor.span
    rw [hnext, hwidth]
    simp [behindGaps, Cursor.ofLexemes, Span.ofWidth, Span.shift, Lexeme.width, Lexeme.lead]
    omega
  · have hfirst : (Cursor.ofLexemes ls).touching = false := rfl
    have hleading : ((Cursor.ofLexemes ls).next.lead gaps).leading.isEmpty = false := by
      simp [Lexeme.lead, h]
    rw [hfirst, Cursor.touching, hnext]
    cases behind with
    | none => rfl
    | some l => simp [behindGaps, Lexeme.touches, hleading]

/-- All lexemes are moved as far as the first one. -/
theorem moved_advance (h : gaps ≠ []) (i : Nat) :
    ((Cursor.ofLexemes ls).advance i).Moved (offset + Text.width (Gap.textOf gaps))
      ((ls.behindGaps offset behind gaps).advance i) := by
  have hstart := ls.moved_start offset behind h
  cases hbody : ls.body with
  | nil =>
    rw [Cursor.advance_of_nil hbody, Cursor.advance_of_nil (by simp [behindGaps, lead, hbody])]
    exact hstart
  | cons l rest =>
    cases i with
    | zero =>
      rw [Cursor.advance_zero, Cursor.advance_zero]
      exact hstart
    | succ j =>
      rw [Nat.add_comm j 1, ← Cursor.advance_advance _ 1 j, ← Cursor.advance_advance _ 1 j]
      have hfirst : Cursor.ofLexemes ls = ⟨0, none, l :: rest, ls.final⟩ := by
        simp [Cursor.ofLexemes, hbody]
      have hsecond : ls.behindGaps offset behind gaps
          = ⟨offset, behind, l.lead gaps :: rest, ls.final⟩ := by
        simp [behindGaps, lead, hbody]
      rw [hfirst, hsecond]
      refine .advance ?_ ?_ ?_ ?_ j
      · rfl
      · rfl
      · simp [Cursor.advance, Lexeme.widthOf, Lexeme.fullWidth_lead]
        omega
      · rfl

/-- Lexemes and the same lexemes with more trivia in front of them. What is reported of the ones is
reported of the others where they are. -/
def moved (h : gaps ≠ []) : Pairing where
  first := .ofLexemes ls
  second := ls.behindGaps offset behind gaps
  more := []
  Whole := True
  Alike r r' := r' = r.map (·.shift (offset + Text.width (Gap.textOf gaps)))
  kinds_eq := by
    unfold Cursor.kinds behindGaps lead Cursor.ofLexemes
    cases ls.body <;> simp [Lexeme.lead]
  more_eq_nil _ := rfl
  touching_eq i _ := (ls.moved_advance offset behind h i).touching.symm
  alike_nil := rfl
  alike_append ha hb := by rw [ha, hb, List.map_append]
  alike_span _ i p _ := by
    have hmoved := ls.moved_advance offset behind h i
    rw [hmoved.text, hmoved.span]
    rfl
  alike_gap _ i p := by
    unfold Cursor.gap
    rw [(ls.moved_advance offset behind h i).span]
    simp [Problem.reportAt, Diagnostic.shift, Span.shift, Span.emptyAt, Span.ofWidth]
  alike_loop i _ := (ls.moved_advance offset behind h i).loopReports

end Lexemes

namespace Production

variable {c c' : Cursor}

theorem documentStep_item (h : c.kind ≠ .eof) : documentStep c = (some <$> item) c := by
  rw [documentStep_apply, if_neg h]

theorem documentStep_some {d : Draft} (h : (documentStep c).value = some d) : c.kind ≠ .eof := by
  intro he
  rw [documentStep_apply, if_pos he] at h
  cases h

/-- A reading of both texts makes of the first text what `o` is made of, and then goes on as
`tail`. -/
structure Continues (K : Pairing) (o tail both : Outcome (List Draft)) : Prop where
  value : ∃ items, items.map Draft.shape = o.value.map Draft.shape ∧ both.value = items ++ tail.value
  reports : ∃ reports, K.Alike o.reports reports ∧ both.reports = reports ++ tail.reports
  rest : both.rest = tail.rest

/-- Items that are read without an error come first where more lexemes follow. Behind them the
reading goes on as it would from there. -/
theorem many_continued (K : Pairing) (hw : ¬K.Whole) (c c' : Cursor) (hc : K.Meets c c')
    (hg : (many documentStep c).Good) (hk : ∀ l ∈ c.ahead, l.kind ≠ .eof) :
    Continues K (many documentStep c)
      (many documentStep (K.second.advance K.first.ahead.length)) (many documentStep c') := by
  fun_induction many documentStep c generalizing c' with
  | case1 c first hn =>
    have hfirst : first = ⟨none, c, [], []⟩ := documentStep_steps.ends hn
    have hkind : c.kind = .eof := by
      by_contra he
      have hvalue : first.value = (documentStep c).value := rfl
      rw [documentStep_item he, map_apply, hn] at hvalue
      cases hvalue
    -- The first text is at its end, so the second one is where the lexemes behind it start.
    have hend : c.ahead = [] := Cursor.ahead_eq_nil hkind hk
    obtain ⟨i, rfl, rfl, hi⟩ := hc
    have hlen : K.first.ahead.length - i = 0 := by
      rw [← Cursor.length_advance, hend]
      rfl
    have hi : i = K.first.ahead.length := by
      have := hi.resolve_left hw
      omega
    subst hi
    exact ⟨⟨[], rfl, rfl⟩, ⟨[], hfirst ▸ K.alike_nil, rfl⟩, rfl⟩
  | case2 c first d hd hlt rest ih =>
    obtain ⟨hfirst, hrest⟩ := Outcome.good_append.mp hg
    obtain ⟨⟨hread, -⟩, -, -⟩ := documentStep_steps.goesOn hd
    have he := documentStep_some hd
    have hitem : first = (some <$> item) c := documentStep_item he
    rw [hitem, map_apply] at hfirst hd
    -- An item needs no lexeme behind it, so it is the same with more of them there.
    have hone : 1 ≤ c.ahead.length := by omega
    obtain ⟨hvalue, hmeets, hreports⟩ := (K.steady_item c c').same hc
      (.inr ⟨⟨hfirst.clean, hfirst.faultless⟩, Nat.zero_le _⟩)
    have hitem' : documentStep c' = (some <$> item) c' :=
      documentStep_item (K.sees_kind c c' hc (.inr hone) ▸ he)
    have hrest' : first.rest = (item c).rest := by rw [hitem, map_apply]
    have htail := ih (item c').rest (hrest' ▸ hmeets) hrest fun l hl =>
      hk l (hread.passes.ahead ▸ List.mem_append_right _ hl)
    obtain ⟨⟨items, hitems, hitemsValue⟩, ⟨reports, halike, hreportsValue⟩, hend⟩ := htail
    have hgoes : many documentStep c' = _ :=
      many_of_some (a := (item c').value) (by rw [hitem', map_apply])
        (by rw [hitem', map_apply]; exact (hc.goesOn hmeets).mp (hrest' ▸ hlt))
    rw [hgoes, hitem', map_apply]
    refine ⟨⟨(item c').value :: items, ?_, ?_⟩, ⟨(item c').reports ++ reports, ?_, ?_⟩, hend⟩
    · cases hd
      simp [hitems, hvalue, rest]
    · simp [hitemsValue]
    · rw [hitem, map_apply]
      exact K.alike_append hreports halike
    · simp [hreportsValue]
  | case3 c first d hd hlt => exact absurd hg Pairing.not_good_idle

end Production

end Stylesheet
