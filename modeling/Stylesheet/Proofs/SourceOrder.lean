import Stylesheet.Proofs.Inventory
import Stylesheet.Proofs.LexicalReports
import Stylesheet.Proofs.Spans
import Stylesheet.Proofs.Unclosed.Texts

/-!
# Reports come in the order of the text

A scan reports problems of texts that it has just cut, so the spans of its reports lie one behind the
other. A production reports where its cursor stands, and a cursor never goes back: so the reports on
structure start in the order they were made. Sorting puts the two rows together, and where reports
start at one offset, those of the scan come first.

A cursor splits its text between two lexemes. So the spans of all reports can be cut out.

Results:
* `Lexeme.strung_located`: what is reported of lexemes in a row.
* `Reading.ascends`, `Reading.sliceable`: what any reading reports.
* `Diagnostic.sorted_ties`: how sorting puts two rows together.
* `parse_in_order`: the order of all reports on a text.
-/
namespace Stylesheet

/-! ## Rows of reports -/

namespace Diagnostic

/-- Reports between two offsets, each on a stretch that starts where the one before it stops, or
later. -/
def Strung (start : Nat) : List Diagnostic → Nat → Prop
  | [], stop => start ≤ stop
  | d :: ds, stop => start ≤ d.span.start ∧ d.span.start < d.span.stop ∧ Strung d.span.stop ds stop

/-- Reports between two offsets, none of which starts before the one in front of it. -/
def Ascends (start : Nat) : List Diagnostic → Nat → Prop
  | [], stop => start ≤ stop
  | d :: ds, stop => start ≤ d.span.start ∧ Ascends d.span.start ds stop

variable {start middle stop : Nat} {ds es : List Diagnostic}

theorem Strung.le (h : Strung start ds stop) : start ≤ stop := by
  induction ds generalizing start with
  | nil => exact h
  | cons d ds ih =>
    obtain ⟨hstart, hspan, hds⟩ := h
    have := ih hds
    omega

theorem Strung.append (h : Strung start ds middle) (h' : Strung middle es stop) :
    Strung start (ds ++ es) stop := by
  induction ds generalizing start with
  | nil =>
    cases es with
    | nil => exact Nat.le_trans h h'
    | cons e es => exact ⟨Nat.le_trans h h'.1, h'.2⟩
  | cons d ds ih => exact ⟨h.1, h.2.1, ih h.2.2⟩

theorem Strung.start_le (h : Strung start ds stop) : ∀ d ∈ ds, start ≤ d.span.start := by
  induction ds generalizing start with
  | nil => exact List.forall_mem_nil _
  | cons d ds ih =>
    obtain ⟨hstart, hspan, hds⟩ := h
    refine List.forall_mem_cons.mpr ⟨hstart, fun e he => ?_⟩
    have := ih hds e he
    omega

/-- Reports in a string start one behind the other, and do not overlap. -/
theorem Strung.pairwise (h : Strung start ds stop) :
    ds.Pairwise fun a b => a.span.start < b.span.start ∧ a.span.stop ≤ b.span.start := by
  induction ds generalizing start with
  | nil => exact .nil
  | cons d ds ih =>
    obtain ⟨-, hspan, hds⟩ := h
    refine .cons (fun e he => ?_) (ih hds)
    have := hds.start_le e he
    omega

theorem Ascends.append (h : Ascends start ds middle) (h' : Ascends middle es stop) :
    Ascends start (ds ++ es) stop := by
  induction ds generalizing start with
  | nil =>
    cases es with
    | nil => exact Nat.le_trans h h'
    | cons e es => exact ⟨Nat.le_trans h h'.1, h'.2⟩
  | cons d ds ih => exact ⟨h.1, ih h.2⟩

theorem Ascends.start_le (h : Ascends start ds stop) : ∀ d ∈ ds, start ≤ d.span.start := by
  induction ds generalizing start with
  | nil => exact List.forall_mem_nil _
  | cons d ds ih =>
    exact List.forall_mem_cons.mpr ⟨h.1, fun e he => Nat.le_trans h.1 (ih h.2 e he)⟩

theorem Ascends.pairwise (h : Ascends start ds stop) :
    ds.Pairwise fun a b => a.span.start ≤ b.span.start := by
  induction ds generalizing start with
  | nil => exact .nil
  | cons d ds ih => exact .cons h.2.start_le (ih h.2)

end Diagnostic

/-! ## Reports on lexemes -/

/-- A report on a stretch of text of which something is wrong. -/
theorem Diagnostic.strung_of_problem {p? : Option Problem} {width : Nat}
    (h : p? ≠ none → 0 < width) (start : Nat) :
    Strung start (p?.map (·.reportAt (Span.ofWidth start width))).toList (start + width) := by
  cases p? with
  | none => exact Nat.le_add_right start width
  | some p =>
    have := h nofun
    exact ⟨Nat.le_refl _, by simpa [Problem.reportAt] using this, Nat.le_refl _⟩

open Diagnostic

namespace Gap

theorem width_pos_of_problem {gap : Gap} (h : gap.problem? ≠ none) : 0 < gap.width := by
  refine Text.width_pos fun hnil => h ?_
  simp [problem?, hnil]

theorem strung_located (offset : Nat) (gaps : List Gap) :
    Strung offset ((located offset gaps).flatMap reports) (offset + Text.width (textOf gaps)) := by
  induction gaps generalizing offset with
  | nil => exact Nat.le_refl _
  | cons gap gaps ih =>
    have htail := ih (offset + gap.width)
    rw [Nat.add_assoc, width, ← Text.width_append] at htail
    rw [located, List.flatMap_cons]
    exact (strung_of_problem width_pos_of_problem offset).append htail

end Gap

namespace Lexeme

theorem width_pos_of_problem {l : Lexeme} (h : l.problem? ≠ none) : 0 < l.width := by
  refine Text.width_pos fun hnil => h ?_
  simp [problem?, hnil]

theorem strung_reports (offset : Nat) (l : Lexeme) :
    Strung offset (reports (offset + l.leadingWidth, l)) (offset + l.fullWidth) := by
  have hlead := Gap.strung_located offset l.leading
  have hown := strung_of_problem (width_pos_of_problem (l := l)) (offset + l.leadingWidth)
  have htrail := Gap.strung_located (offset + l.leadingWidth + l.width) l.trailing
  rw [reports, Nat.add_sub_cancel]
  have hwhole := (hlead.append hown).append htrail
  simpa [fullWidth, trailingWidth, Nat.add_assoc] using hwhole

theorem strung_located (offset : Nat) (ls : List Lexeme) :
    Strung offset ((located offset ls).flatMap reports) (offset + widthOf ls) := by
  induction ls generalizing offset with
  | nil => exact Nat.le_refl _
  | cons l ls ih =>
    have htail := ih (offset + l.fullWidth)
    rw [Nat.add_assoc] at htail
    rw [located, List.flatMap_cons]
    exact (strung_reports offset l).append htail

end Lexeme

theorem span_of_mem_problem {p? : Option Problem} {span : Span} {d : Diagnostic}
    (h : d ∈ (p?.map (·.reportAt span)).toList) : d.span = span := by
  cases p? with
  | none => cases h
  | some p => rw [List.mem_singleton.mp h]; rfl

/-- A report is on the text of a lexeme or on a stretch of the trivia around it. -/
theorem Lexeme.span_of_mem_reports {p : Nat × Lexeme} {d : Diagnostic} (h : d ∈ reports p) :
    d.span = Span.ofWidth p.1 p.2.width
      ∨ ∃ q ∈ gapsAt p, d.span = Span.ofWidth q.1 q.2.width := by
  rw [reports, List.append_assoc, List.mem_append, List.mem_append, List.mem_flatMap,
    List.mem_flatMap] at h
  rcases h with ⟨q, hq, hd⟩ | hd | ⟨q, hq, hd⟩
  · exact .inr ⟨q, List.mem_append_left _ hq, span_of_mem_problem hd⟩
  · exact .inl (span_of_mem_problem hd)
  · exact .inr ⟨q, List.mem_append_right _ hq, span_of_mem_problem hd⟩

/-! ## Reports on structure -/

namespace Cursor

/-- A cursor goes on over lexemes, never back. -/
theorem Passes.start_le {c c' : Cursor} {ls : List Lexeme} (h : c.Passes ls c') :
    c.span.start ≤ c'.span.start := by
  cases ls with
  | nil => rw [h.stand]
  | cons l ls =>
    have hoffset := h.offset
    simp only [Lexeme.widthOf, Lexeme.fullWidth] at hoffset
    simp only [span, h.next_eq, Span.start_ofWidth]
    omega

/-- What is in front of a cursor and what lies ahead of it make up a text. -/
def Splits (c : Cursor) (text : Text) : Prop :=
  ∃ before, text = before ++ Lexeme.textOf (c.ahead ++ [c.final]) ∧ Text.width before = c.offset

namespace Splits

variable {c c' : Cursor} {text : Text} {ls : List Lexeme}

theorem ofLexemes (text : Text) : (Cursor.ofLexemes (Lexemes.scan text)).Splits text :=
  ⟨[], (Lexemes.textOf_scan text).symm, rfl⟩

theorem passes (h : c.Splits text) (hp : c.Passes ls c') : c'.Splits text := by
  obtain ⟨before, htext, hwidth⟩ := h
  refine ⟨before ++ Lexeme.textOf ls, ?_, ?_⟩
  · rw [htext, hp.ahead, hp.final, List.append_assoc, Lexeme.textOf_append, List.append_assoc]
  · rw [Text.width_append, hwidth, Lexeme.width_textOf, hp.offset]

/-- The next lexeme can be cut out of the text. -/
theorem span (h : c.Splits text) : text.Sliceable c.span := by
  obtain ⟨before, htext, hwidth⟩ := h
  obtain ⟨rest, hrest⟩ : ∃ rest, c.ahead ++ [c.final] = c.next :: rest := by
    cases hc : c.ahead with
    | nil => exact ⟨[], by simp [next, hc]⟩
    | cons l ls => exact ⟨ls ++ [c.final], by simp [next, hc]⟩
  have hholds := Text.holdsAt_append (before ++ Gap.textOf c.next.leading) c.next.text
    (Gap.textOf c.next.trailing ++ Lexeme.textOf rest)
  have hwhole : before ++ Gap.textOf c.next.leading ++ c.next.text
      ++ (Gap.textOf c.next.trailing ++ Lexeme.textOf rest) = text := by
    rw [htext, hrest]
    simp [Lexeme.textOf, Lexeme.fullText]
  rw [hwhole, Text.width_append, hwidth] at hholds
  exact ⟨hholds.1, hholds.2.1⟩

theorem gap (h : c.Splits text) : text.Sliceable c.gap := ⟨h.span.1, h.span.1⟩

end Splits

end Cursor

namespace Reading

variable {c c' : Cursor} {slots : List (SlotRole × Option Draft)} {r : List Diagnostic} {text : Text}

/-- A reading reports from where its cursor stands on, in order. -/
theorem ascends (h : Reading c slots c' r) : Ascends c.span.start r c'.span.start := by
  induction h with
  | nil | empty | covered => exact Nat.le_refl _
  | append _ _ ih₁ ih₂ => exact ih₁.append ih₂
  | needed | lacking => exact ⟨Nat.le_refl _, Nat.le_refl _⟩
  | run _ hc => exact hc.start_le
  | unknownArgument hc | unknownLoop hc | error hc => exact ⟨Nat.le_refl _, hc.start_le⟩
  | node _ _ _ _ _ ih | list _ _ _ _ ih => exact ih
  | misplaced _ _ _ ih => exact ⟨Nat.le_refl _, ih⟩
  | trailing _ _ _ _ _ ih => exact ih.append ⟨Nat.le_refl _, Nat.le_refl _⟩

/-- What a reading reports of a text can be cut out of it. -/
theorem sliceable (h : Reading c slots c' r) (hc : c.Splits text) :
    ∀ d ∈ r, text.Sliceable d.span := by
  induction h with
  | nil | empty | covered | run => exact List.forall_mem_nil _
  | append h₁ _ ih₁ ih₂ =>
    exact List.forall_mem_append.mpr ⟨ih₁ hc, ih₂ (hc.passes h₁.passes)⟩
  | needed | lacking => exact List.forall_mem_singleton.mpr hc.gap
  | unknownArgument | unknownLoop | error => exact List.forall_mem_singleton.mpr hc.span
  | node _ _ _ _ _ ih | list _ _ _ _ ih => exact ih hc
  | misplaced _ _ _ ih => exact List.forall_mem_cons.mpr ⟨hc.span, ih hc⟩
  | trailing _ _ h _ _ ih =>
    exact List.forall_mem_append.mpr
      ⟨ih hc, List.forall_mem_singleton.mpr (hc.passes h.passes).span⟩

end Reading

/-! ## Sorting -/

namespace Diagnostic

/-- Where reports start at one offset, sorting keeps them as they are. -/
theorem sorted_ties (n : Nat) (ds es : List Diagnostic) :
    (sorted (ds ++ es)).filter (·.span.start = n)
      = ds.filter (·.span.start = n) ++ es.filter (·.span.start = n) := by
  rw [sorted_filter, List.filter_append, sorted, List.mergeSort_of_pairwise]
  rw [← List.filter_append]
  refine List.pairwise_of_forall_mem_list fun a ha b hb => ?_
  have hastart : a.span.start = n := by simpa using (List.mem_filter.mp ha).2
  have hbstart : b.span.start = n := by simpa using (List.mem_filter.mp hb).2
  simp [hastart, hbstart]

/-- Reports that are in order keep it. -/
theorem sublist_sorted {ds es : List Diagnostic}
    (h : ds.Pairwise fun a b => a.span.start ≤ b.span.start) (hs : ds.Sublist es) :
    ds.Sublist (sorted es) := by
  refine List.sublist_mergeSort ?_ ?_ (h.imp decide_eq_true) hs
  · simp
    omega
  · simp
    omega

end Diagnostic

/-! ## Whole texts -/

namespace Lexemes

/-- What a scan reports of a text can be cut out of it. -/
theorem sliceable_scan (text : Text) : ∀ d ∈ (scan text).reports, text.Sliceable d.span := by
  intro d hd
  rw [scan, scanFrom_reports, List.mem_flatMap] at hd
  obtain ⟨⟨start, l⟩, hl, hd⟩ := hd
  obtain ⟨front, back, hsplit, rfl⟩ := Lexeme.mem_located hl
  rw [Nat.zero_add] at hd
  rcases Lexeme.span_of_mem_reports hd with hspan | ⟨q, hq, hspan⟩
  · have hholds : text.HoldsAt (Text.width (Lexeme.textOf front ++ Gap.textOf l.leading)) l.text := by
      rw [text_split hsplit]
      exact Text.holdsAt_append ..
    rw [hspan]
    exact ⟨hholds.1, hholds.2.1⟩
  · obtain ⟨-, hholds, -⟩ := standsAt_of_split hsplit q hq
    rw [hspan]
    exact ⟨hholds.1, hholds.2.1⟩

end Lexemes

/-- The reports on a text are in the order of the text. -/
structure InOrder (text : Text) : Prop where
  lexical : (Lexemes.scan text).reports.Pairwise fun a b =>
    a.span.start < b.span.start ∧ a.span.stop ≤ b.span.start
  structural : (draftOf (Lexemes.scan text)).reports.Pairwise fun a b => a.span.start ≤ b.span.start
  together : (parse text).diagnostics.Pairwise fun a b => a.span.start ≤ b.span.start
  /-- At one offset the reports on lexemes come first, and all are as they were made. -/
  ties : ∀ n, (parse text).diagnostics.filter (·.span.start = n)
    = (Lexemes.scan text).reports.filter (·.span.start = n)
      ++ (draftOf (Lexemes.scan text)).reports.filter (·.span.start = n)
  lexicalKept : (Lexemes.scan text).reports.Sublist (parse text).diagnostics
  structuralKept : (draftOf (Lexemes.scan text)).reports.Sublist (parse text).diagnostics
  within : ∀ d ∈ (parse text).diagnostics, d.span.start ≤ d.span.stop
    ∧ d.span.stop ≤ Text.width text ∧ text.isBoundary d.span.start ∧ text.isBoundary d.span.stop

theorem parse_in_order (text : Text) : InOrder text := by
  have hlexical : Strung 0 (Lexemes.scan text).reports _ :=
    Lexemes.scanFrom_reports 0 text ▸ Lexeme.strung_located 0 (Lexemes.scan text).all
  obtain ⟨items, -, hputs, -⟩ := draftOf_reading (Lexemes.scan text)
  have hstructural := hputs.reading.ascends.pairwise
  refine ⟨hlexical.pairwise, hstructural, pairwise_sorted _, fun n => sorted_ties n _ _,
    sublist_sorted (hlexical.pairwise.imp fun h => Nat.le_of_lt h.1) (List.sublist_append_left ..),
    sublist_sorted hstructural (List.sublist_append_right ..), fun d hd => ?_⟩
  have hsliceable : text.Sliceable d.span := by
    rcases List.mem_append.mp ((sorted_perm _).mem_iff.mp hd) with hd | hd
    · exact Lexemes.sliceable_scan text d hd
    · exact hputs.reading.sliceable (.ofLexemes text) d hd
  exact ⟨d.span.start_le_stop, hsliceable.stop_le, hsliceable⟩

end Stylesheet
