import Stylesheet.Proofs.Pairing
import Stylesheet.Proofs.Recognition.Pieces

/-!
# Pieces side by side

Results:
* `Pairing.steady_takeRun`: a run of lexemes is made wherever there are so many.
* `Pairing.steady_reportGap`, `Pairing.together_report`: what reports an error counts only where
  the texts end together.
* `Pairing.steady_expect`, `Pairing.steady_qualifiedName`, `Pairing.steady_qualifier`.
-/
namespace Stylesheet.Pairing

open Production

variable {K : Pairing} {c c' : Cursor} {m r n k j : Nat} {α β : Type} {view : α → β}

/-! ## Runs -/

theorem shape_takeRun (kind : Kind) (count : Nat) (c : Cursor) :
    Draft.shape (takeRun kind count c).value = .token (kind, (c.ahead.take count).length) := by
  unfold takeRun
  cases c.ahead.take count with
  | nil => rfl
  | cons first more => rfl

theorem reports_takeRun (kind : Kind) (count : Nat) (c : Cursor) :
    (takeRun kind count c).reports = [] := by
  unfold takeRun
  cases c.ahead.take count <;> rfl

theorem rest_takeRun (kind : Kind) (count : Nat) (c : Cursor) :
    (takeRun kind count c).rest = c.advance count := by
  unfold takeRun
  cases h : c.ahead.take count with
  | nil =>
    have hpass := c.passes_take count
    rw [h] at hpass
    exact hpass.stand.symm
  | cons first more => rfl

theorem pastEnd_eq_nil {count : Nat} {c : Cursor} (h : pastEnd count c = []) :
    count ≤ c.ahead.length := by
  unfold pastEnd at h
  split at h
  · assumption
  · cases h

theorem good_takeRun {kind : Kind} {count : Nat} {c : Cursor} (h : (takeRun kind count c).Good) :
    count ≤ c.ahead.length := by
  have hfault := h.faultless
  unfold takeRun at hfault
  cases ht : c.ahead.take count with
  | nil =>
    simp only [ht] at hfault
    cases hfault
  | cons first more =>
    simp only [ht] at hfault
    exact pastEnd_eq_nil hfault

theorem Meets.length_take (h : K.Meets c c') (hn : K.Whole ∨ n ≤ c.ahead.length) :
    (c.ahead.take n).length = (c'.ahead.take n).length := by
  have hlen := h.length
  rw [List.length_take, List.length_take]
  rcases hn with hw | hn
  · rw [h.length_whole hw]
  · omega

/-- A run of lexemes. -/
theorem steady_takeRun (K : Pairing) (kind : Kind) (count m : Nat) :
    K.Steady Draft.shape m count (takeRun kind count) := by
  intro c c'
  refine ⟨fun hg => ?_, fun hc hg => ?_⟩
  · have := good_takeRun hg
    rw [rest_takeRun, Cursor.length_advance]
    omega
  · have hn : K.Whole ∨ count ≤ c.ahead.length := hg.imp_right fun hg => good_takeRun hg.1
    refine ⟨?_, ?_, ?_⟩
    · rw [shape_takeRun, shape_takeRun, hc.length_take hn]
    · rw [rest_takeRun, rest_takeRun]
      exact hc.advance hn
    · rw [reports_takeRun, reports_takeRun]
      exact K.alike_nil

theorem steady_takeAs (K : Pairing) (kind : Kind) : K.Steady Draft.shape 0 1 (takeAs kind) :=
  K.steady_takeRun kind 1 0

theorem steady_take (K : Pairing) : K.Steady Draft.shape 0 1 take := by
  have hx : take = (look Cursor.kind >>= takeAs) := rfl
  rw [hx]
  exact .look (by omega) K.sees_kind fun kind => K.steady_takeAs kind

/-! ## Reports -/

theorem not_good_of_error {o : Outcome α} {d : Diagnostic} (hd : d ∈ o.reports) (he : d.isError) :
    ¬o.Good :=
  fun hg => Outcome.not_clean hd he hg.clean

theorem not_good_bind {β : Type} {p : Production α} {f : α → Production β} (h : ¬(p c).Good) :
    ¬((p >>= f) c).Good := by
  intro hg
  rw [bind_apply] at hg
  exact h (Outcome.good_append.mp hg).1

theorem isError_reportAt {p : Problem} (hp : p.severity = .error) (s : Span) :
    (p.reportAt s).isError := by
  simp [Problem.reportAt, Diagnostic.isError, hp]

/-- An error in front of the next lexeme. -/
theorem steady_reportGap (K : Pairing) {p : Problem} (hp : p.severity = .error) (m r : Nat) :
    K.Steady id m r (reportGap p) := by
  intro c c'
  refine .of_bad (not_good_of_error (List.mem_singleton_self _) (isError_reportAt hp _))
    fun hw hc => ⟨rfl, hc, ?_⟩
  obtain ⟨i, rfl, rfl, -⟩ := hc
  exact K.alike_gap hw i p

theorem Meets.alike_span (h : K.Meets c c') (hw : K.Whole) {p : Text → Problem}
    (hp : ∀ t u, (p t).code = (p u).code) :
    K.Alike [(p c.next.text).reportAt c.span] [(p c'.next.text).reportAt c'.span] := by
  obtain ⟨i, rfl, rfl, -⟩ := h
  exact K.alike_span hw i p hp

/-- An error at the next lexeme. What follows it counts only where the texts end together. -/
theorem together_report (K : Pairing) {p : Problem} (hp : p.severity = .error)
    {f f' : Unit → Production α} (h : K.Whole → K.Together view k j (f ()) (f' ())) :
    K.Together view m r (report p >>= f) (report p >>= f') := by
  intro c c'
  refine .of_bad (not_good_bind (not_good_of_error (List.mem_singleton_self _)
    (isError_reportAt hp _))) fun hw hc => ?_
  obtain ⟨hvalue, hrest, hreports⟩ := (h hw c c').same hc (.inl hw)
  have herror : K.Alike [p.reportAt c.span] [p.reportAt c'.span] :=
    hc.alike_span (p := fun _ => p) hw fun _ _ => rfl
  exact ⟨hvalue, hrest, K.alike_append herror hreports⟩

/-- The same for an error that quotes the next lexeme. -/
theorem steady_report_text (K : Pairing) {p : Text → Problem} (hs : ∀ t, (p t).severity = .error)
    (hp : ∀ t u, (p t).code = (p u).code) {f : Unit → Production α}
    (h : K.Whole → K.Steady view k j (f ())) :
    K.Steady view m r (look (·.next.text) >>= fun t => report (p t) >>= f) := by
  intro c c'
  refine .of_bad (not_good_bind (p := report (p c.next.text)) (not_good_of_error
    (List.mem_singleton_self _) (isError_reportAt (hs _) _))) fun hw hc => ?_
  obtain ⟨hvalue, hrest, hreports⟩ := (h hw c c').same hc (.inl hw)
  have herror := K.alike_append (hc.alike_span hw hp) hreports
  exact ⟨hvalue, hrest, K.alike_append K.alike_nil herror⟩

/-! ## What is there or missing -/

theorem steady_lacking (K : Pairing) (kind : Kind) {p : Problem} (hp : p.severity = .error)
    (m r : Nat) : K.Steady Draft.shape m r (lacking kind p) :=
  .bind (by omega) (K.steady_reportGap hp m r) fun _ _ _ => .done (Nat.sub_self r) rfl

theorem steady_absent (K : Pairing) (kind : Kind) (m r : Nat) :
    K.Steady Draft.shape m r (absent kind) :=
  K.steady_lacking kind rfl m r

theorem steady_expect (K : Pairing) (kind : Kind) : K.Steady Draft.shape 0 1 (expect kind) :=
  .look (by omega) (K.sees_is kind) fun _ =>
    .ite (fun _ => K.steady_take) fun _ => K.steady_absent kind 0 1

theorem steady_accept (K : Pairing) (kind : Kind) :
    K.Steady (Option.map Draft.shape) 1 0 (accept kind) :=
  .look (by omega) (K.sees_is kind) fun _ => K.steady_take.optional.weaken (by omega) (by omega)

/-! ## Names -/

theorem steady_expectName (K : Pairing) : K.Steady Draft.shape 0 1 expectName :=
  .look (by omega) (K.sees_contains nameStarts) fun _ =>
    .ite (fun _ => K.steady_takeAs .identifier) fun _ => K.steady_absent .identifier 0 1

theorem steady_optionalName (K : Pairing) :
    K.Steady (Option.map Draft.shape) 1 0 optionalName :=
  .look (by omega) (K.sees_contains nameStarts) fun _ =>
    (K.steady_takeAs .identifier).optional.weaken (by omega) (by omega)

theorem sees_owned (K : Pairing) :
    K.Sees (fun c => decide (c.kind = .period) && (c.kindAt 1).isName) 2 :=
  (K.sees_is .period).and ((K.sees_kindAt 1).comp Kind.isName)

theorem steady_qualifiedName (K : Pairing) (kind : Kind) :
    K.Steady Draft.shape 2 1 (qualifiedName kind) := by
  refine .bind (by omega) K.steady_expectName fun first first' hfirst => ?_
  refine .look (by omega) K.sees_owned fun _ => .ite (fun _ => ?_) fun _ => ?_
  · refine .bind (by omega) K.steady_take fun period period' hperiod => ?_
    refine .bind (by omega) (K.steady_takeAs .identifier) fun name name' hname => .done rfl ?_
    exact Draft.shape_composite_congr kind (by simp [hfirst, hperiod, hname])
  · exact .done rfl (Draft.shape_composite_congr kind (by simp [hfirst]))

theorem steady_qualifier (K : Pairing) :
    K.Steady (Option.map Draft.shape) 2 0 qualifier := by
  refine .look (by omega) K.sees_kind fun kind => ?_
  split
  · exact fun c c' =>
      ((K.steady_take c c').weaken (by omega) (by omega)).map fun a a' h => by simp [h]
  · exact .look (by omega) ((K.sees_kindAt 1).comp fun k => decide (k = .importantKeyword)) fun _ =>
      (K.steady_takeRun .importantKeyword 2 2).optional
  · exact fun _ _ => .done rfl rfl

end Stylesheet.Pairing
