import Stylesheet.Proofs.Reading.Declarations
import Stylesheet.Proofs.Recognition.Loops

/-!
# Recognizing declarations

A value is counted before it is read, so what the grammar says of it is compared with the counts.
A plain value is the one place where what follows a word matters more than one lexeme on: a name at
its end must not read like the start of an evaluation, nor an exclamation mark like a qualifier.

Results:
* `Run.bracedLength_append`, `Run.closes_take`: what stands between braces is what is balanced.
* `Run.valueLength_append`, `Run.unended_take`: what a plain value is made of.
* `value_recognizes`, `qualified_recognizes`: values, and what may have a qualifier behind it.
* `rule_recognizes`, `transition_recognizes`.
-/
namespace Stylesheet

open scoped Computability

/-! ## Counts -/

namespace Run

open Grammar

variable {context : Context} {first : Bool} {ls rest : List Lexeme} {inner ks : List Kind}
  {depth : Nat}

/-- Nothing balanced closes a group around it. -/
theorem bracedLength_append (h : Balanced ks) (hk : ls.map Lexeme.kind = ks) (depth : Nat)
    (rest : List Lexeme) :
    bracedLength depth (ls ++ rest) = ls.length + bracedLength depth rest := by
  induction h generalizing ls depth rest with
  | nil => simp [List.map_eq_nil_iff.mp hk]
  | other hl hr _ ih =>
    obtain ⟨l, more, rfl, rfl, rfl⟩ := List.map_eq_cons_iff.mp hk
    rw [List.cons_append, bracedLength_other hl hr, ih rfl, List.length_cons]
    omega
  | group _ _ ihi ihr =>
    obtain ⟨group, more, rfl, hgroup, hmore⟩ := List.map_eq_append_iff.mp hk
    obtain ⟨l, group, rfl, hl, rfl⟩ := List.map_eq_cons_iff.mp hgroup
    obtain ⟨r, more, rfl, hr, rfl⟩ := List.map_eq_cons_iff.mp hmore
    have hopen (ls : List Lexeme) : bracedLength depth (l :: ls) = bracedLength (depth + 1) ls + 1 := by
      simp [bracedLength, hl]
    have hclose (ls : List Lexeme) : bracedLength (depth + 1) (r :: ls) = bracedLength depth ls + 1 := by
      simp [bracedLength, hr]
    rw [List.append_assoc, List.cons_append, hopen, ihi rfl, List.cons_append, hclose, ihr rfl]
    simp only [List.length_cons, List.length_append]
    omega

/-- The kinds of what stands before the brace that closes `depth` groups and the one around
them. -/
def Closes : Nat → List Kind → Prop
  | 0, ks => Balanced ks
  | depth + 1, ks => ∃ inner rest, ks = inner ++ .rightBrace :: rest ∧ Balanced inner ∧
      Closes depth rest

theorem Closes.other {k : Kind} (hl : k ≠ .leftBrace) (hr : k ≠ .rightBrace)
    (h : Closes depth ks) : Closes depth (k :: ks) := by
  cases depth with
  | zero => exact .other hl hr h
  | succ depth =>
    obtain ⟨inner, rest, rfl, hinner, hrest⟩ := h
    exact ⟨k :: inner, rest, rfl, .other hl hr hinner, hrest⟩

theorem Closes.group (hi : Balanced inner) (h : Closes depth ks) :
    Closes depth (.leftBrace :: inner ++ .rightBrace :: ks) := by
  cases depth with
  | zero => exact .group hi h
  | succ depth =>
    obtain ⟨next, rest, rfl, hnext, hrest⟩ := h
    exact ⟨.leftBrace :: inner ++ .rightBrace :: next, rest, by simp, .group hi hnext, hrest⟩

/-- Where the count does not go up to the end, it goes up to the closing brace. -/
theorem closes_take (h : bracedLength depth ls < ls.length) :
    Closes depth ((ls.take (bracedLength depth ls)).map Lexeme.kind) := by
  induction ls generalizing depth with
  | nil => exact absurd h (Nat.not_lt_zero _)
  | cons l ls ih =>
    by_cases hl : l.kind = .leftBrace
    · have hcount : bracedLength depth (l :: ls) = bracedLength (depth + 1) ls + 1 := by
        simp [bracedLength, hl]
      rw [hcount] at h ⊢
      obtain ⟨inner, rest, hks, hinner, hrest⟩ := ih (Nat.lt_of_succ_lt_succ h)
      rw [List.take_succ_cons, List.map_cons, hl, hks]
      exact .group hinner hrest
    by_cases hr : l.kind = .rightBrace
    · cases depth with
      | zero =>
        simp only [bracedLength, hr, List.take_zero, List.map_nil]
        exact .nil
      | succ depth =>
        have hcount : bracedLength (depth + 1) (l :: ls) = bracedLength depth ls + 1 := by
          simp [bracedLength, hr]
        rw [hcount] at h ⊢
        rw [List.take_succ_cons, List.map_cons, hr]
        exact ⟨[], _, rfl, .nil, ih (Nat.lt_of_succ_lt_succ h)⟩
    · rw [bracedLength_other hl hr] at h ⊢
      rw [List.take_succ_cons, List.map_cons]
      exact .other hl hr (ih (Nat.lt_of_succ_lt_succ h))

/-- No lexeme of a run ends a plain value, `rest` being what follows the run. -/
def Unended (context : Context) (first : Bool) (ls rest : List Lexeme) : Prop :=
  ∀ before l after, ls = before ++ l :: after →
    endsValue context (first && before.isEmpty) l.kind (after ++ rest) = false

/-- No lexeme that is counted ends the value. -/
theorem unended_take (context : Context) (first : Bool) (ls : List Lexeme) :
    Unended context first (ls.take (valueLength context first ls))
      (ls.drop (valueLength context first ls)) := by
  induction ls generalizing first with
  | nil =>
    intro before l after h
    simp at h
  | cons x ls ih =>
    unfold valueLength
    split
    · intro before l after h
      simp at h
    · next hx =>
      intro before l after h
      rw [List.take_succ_cons] at h
      rw [List.drop_succ_cons]
      cases before with
      | nil =>
        obtain ⟨rfl, rfl⟩ := List.cons.inj h
        rw [List.take_append_drop]
        simpa using hx
      | cons b before =>
        obtain ⟨-, hrest⟩ := List.cons.inj h
        simpa using ih false before l after hrest

/-- A run that nothing ends is counted. -/
theorem valueLength_append (h : Unended context first ls rest) :
    valueLength context first (ls ++ rest)
      = ls.length + valueLength context (first && ls.isEmpty) rest := by
  induction ls generalizing first with
  | nil => simp
  | cons x ls ih =>
    have hx : endsValue context first x.kind (ls ++ rest) = false := by
      simpa using h [] x ls rfl
    have hrest : Unended context false ls rest := by
      intro before l after hls
      have hl := h (x :: before) l after (by rw [hls, List.cons_append])
      simpa using hl
    rw [List.cons_append, valueLength, hx, if_neg (by simp), ih hrest]
    simp
    omega

theorem endsValue_of_stops {k : Kind} (h : k ∈ stops context) (first : Bool)
    (rest : List Lexeme) : endsValue context first k rest = true := by
  revert h
  cases context <;> cases k <;> simp [stops, endsValue]

/-- A name ends a value only in an evaluation, where it reads like the start of another one. -/
theorem endsValue_name {k : Kind} (hk : k.isName) (hi : k ≠ .importantKeyword) :
    endsValue context first k rest
      = (decide (context = .evaluation) && !first && comparesNext rest) := by
  cases k <;> first | exact absurd rfl hi | simp [endsValue, hk]; done | cases hk

theorem endsValue_mark :
    endsValue context first .exclamationMark rest
      = (decide (context ≠ .action) && decide (Lexeme.kindAt rest 0 = .importantKeyword)) :=
  rfl

theorem endsValue_other {k : Kind} (hk : k ∉ stops context) (hm : k ≠ .exclamationMark)
    (hn : k.isName = false) : endsValue context first k rest = false := by
  revert hk hm
  cases context <;> cases k <;> simp [stops, endsValue, hn]

theorem endsValue_false {k : Kind} (hk : k ∉ stops context)
    (hm : context ≠ .action → k = .exclamationMark → Lexeme.kindAt rest 0 ≠ .importantKeyword)
    (hn : context = .evaluation → first = false → k.isName → comparesNext rest = false) :
    endsValue context first k rest = false := by
  by_cases hname : k.isName
  · by_cases hi : k = .importantKeyword
    · subst hi
      cases context <;> simp_all [stops, endsValue]
    · rw [endsValue_name hname hi]
      by_contra h
      simp only [Bool.not_eq_false, Bool.and_eq_true, decide_eq_true_iff, Bool.not_eq_true'] at h
      simp [hn h.1.1 h.1.2 hname] at h
  · by_cases hmark : k = .exclamationMark
    · subst hmark
      rw [endsValue_mark]
      by_contra h
      simp only [Bool.not_eq_false, Bool.and_eq_true, decide_eq_true_iff] at h
      exact hm h.1 rfl h.2
    · exact endsValue_other hk hmark (by simpa using hname)

/-- The plain value of an action goes up to what stops it. -/
theorem kindAt_drop_valueLength (first : Bool) (ls : List Lexeme) :
    Lexeme.kindAt (ls.drop (valueLength .action first ls)) 0 ∈ stops .action := by
  induction ls generalizing first with
  | nil => simp [Lexeme.kindAt, stops]
  | cons l ls ih =>
    unfold valueLength
    split
    · next h =>
      by_contra hk
      have hk : l.kind ∉ stops .action := by simpa [Lexeme.kindAt] using hk
      rw [endsValue_false hk (fun ha => absurd rfl ha) (fun he => by cases he)] at h
      cases h
    · exact ih false

theorem comparesNext_append (h : Compares (ls.map Lexeme.kind)) (rest : List Lexeme) :
    comparesNext (ls ++ rest) = true := by
  rcases h with ⟨k, more, hls, hk⟩ | ⟨x, k, more, hls, hk⟩
  · obtain ⟨l, more, rfl, rfl, -⟩ := List.map_eq_cons_iff.mp hls
    simp [comparesNext, Lexeme.kindAt, hk]
  · obtain ⟨p, more, rfl, hp, hls⟩ := List.map_eq_cons_iff.mp hls
    obtain ⟨y, more, rfl, -, hls⟩ := List.map_eq_cons_iff.mp hls
    obtain ⟨l, more, rfl, rfl, -⟩ := List.map_eq_cons_iff.mp hls
    simp [comparesNext, Lexeme.kindAt, hp, hk]

/-- What is counted is a plain value. -/
theorem isPlain_of_unended (hs : ∃ l more, ls = l :: more ∧ l.kind ≠ .leftBrace)
    (h : Unended context true ls rest) : IsPlain context (ls.map Lexeme.kind) := by
  refine ⟨?_, fun k hk hstop => ?_, ?_⟩
  · obtain ⟨l, more, rfl, hl⟩ := hs
    exact ⟨l.kind, more.map Lexeme.kind, rfl, hl⟩
  · obtain ⟨l, hl, rfl⟩ := List.mem_map.mp hk
    obtain ⟨before, after, hls⟩ := List.append_of_mem hl
    have hends := h before l after hls
    rw [endsValue_of_stops hstop] at hends
    cases hends
  · rintro rfl before k after hls hne hname hcompares
    obtain ⟨lb, more, rfl, rfl, hmore⟩ := List.map_eq_append_iff.mp hls
    obtain ⟨l, la, rfl, rfl, rfl⟩ := List.map_eq_cons_iff.mp hmore
    have hends := h lb l la rfl
    have hempty : lb.isEmpty = false := by cases lb <;> simp_all
    rw [hempty, Bool.and_false] at hends
    have hi : l.kind ≠ .importantKeyword := by
      intro hk
      rw [hk] at hends
      cases hends
    rw [endsValue_name hname hi, comparesNext_append hcompares] at hends
    cases hends

end Run

/-! ## Words and what is behind them -/

namespace Cursor

variable {c c' : Cursor} {ss : List Sign}

/-- Where `important` follows an exclamation mark that was read before. -/
def Marked (c : Cursor) : Prop :=
  c.kind = .importantKeyword ∧ c.behind.map Lexeme.kind = some .exclamationMark

/-- Behind a word stands its last sign. -/
theorem Spells.behind_kind (h : c.Spells ss c') (hne : ss ≠ []) :
    c'.behind.map Lexeme.kind = ss.getLast?.map Sign.kind := by
  obtain ⟨ls, hp, rfl⟩ := h
  rw [← List.getLast?_map, Lexeme.map_kind_signs, List.getLast?_map, hp.behind]
  cases ls with
  | nil => exact absurd rfl hne
  | cons l ls => simp [List.getLast?_cons]

theorem Spells.not_marked (h : c.Spells ss c') (hne : ss ≠ [])
    (hl : ∀ s ∈ ss.getLast?, s.kind ≠ .exclamationMark) : ¬c'.Marked := by
  rintro ⟨-, hbehind⟩
  rw [h.behind_kind hne] at hbehind
  obtain ⟨s, hs, hk⟩ := Option.map_eq_some_iff.mp hbehind
  exact hl s hs hk

end Cursor

namespace Production

open Grammar

variable {α β : Type} {c c' : Cursor} {F : Cursor → Prop} {context : Run.Context}
  {ss : List Sign} {L M : Language Sign}

/-! ## What stands between braces -/

theorem contentOf_run {count : Nat} (h : count ≠ 0) (hle : count ≤ c.ahead.length) :
    ∃ content, bracedValue.contentOf count c = ⟨content, c.advance count, [], []⟩ := by
  obtain ⟨first, more, htake⟩ : ∃ first more, c.ahead.take count = first :: more := by
    refine List.exists_cons_of_ne_nil fun hnil => h ?_
    rw [List.take_eq_nil_iff] at hnil
    rcases hnil with hnil | hnil
    · exact hnil
    · simpa [hnil] using hle
  rw [bracedValue.contentOf, Parsing.bracedValue.contentOf, if_neg h, takeRun_eq, takeRun_apply _ htake hle]
  exact ⟨_, rfl⟩

theorem contentOf_zero (c : Cursor) : ¬(bracedValue.contentOf 0 c).Clean :=
  lacking_not_clean _ rfl c

theorem contentOf_recognizes {count : Nat} (hle : count ≤ c.ahead.length)
    (hs : count ≠ 0 → Lexeme.signs c.behind (c.ahead.take count) ∈ L)
    (hl : ∀ {ss c'}, ss ∈ L → c.Spells ss c' → F c' → ss ≠ [] ∧ ss.length = count) :
    (bracedValue.contentOf count c).Recognizes c L F := by
  by_cases h : count = 0
  · subst h
    refine .refuse (contentOf_zero c) fun hss hc hF => ?_
    obtain ⟨hne, hlen⟩ := hl hss hc hF
    exact hne (List.eq_nil_of_length_eq_zero hlen)
  · obtain ⟨content, hx⟩ := contentOf_run h hle
    rw [hx]
    exact run_recognizes (hs h) fun hss hc hF => (hl hss hc hF).2

/-- A content that takes all there is ends at the end. -/
theorem contentOf_rest (hc : (bracedValue.contentOf c.ahead.length c).Clean) :
    (bracedValue.contentOf c.ahead.length c).rest.kind = .eof := by
  have hne : c.ahead.length ≠ 0 := fun h => contentOf_zero c (h ▸ hc)
  obtain ⟨content, hx⟩ := contentOf_run hne le_rfl
  rw [hx]
  simp [Cursor.kind, Cursor.kindAt, Lexeme.kindAt, Cursor.advance]

/-- A balanced word is counted up to the brace behind it. -/
theorem bracedLength_of_spells (h : Balanced (ss.map Sign.kind)) (hc : c.Spells ss c')
    (hk : c'.kind = .rightBrace) :
    Run.bracedLength 0 c.ahead = ss.length ∧ ss.length < c.ahead.length := by
  obtain ⟨ls, hp, rfl⟩ := hc
  obtain ⟨r, rest, hrest, hr⟩ := Cursor.exists_ahead (c := c') (by simp [hk])
  rw [Lexeme.map_kind_signs] at h
  rw [hp.ahead, Run.bracedLength_append h rfl, Lexeme.length_signs, hrest]
  simp [Run.bracedLength, hr.trans hk]

/-- What is counted up to a brace is balanced. -/
theorem balanced_recognizes (h : Run.bracedLength 0 c.ahead < c.ahead.length) :
    (bracedValue.contentOf (Run.bracedLength 0 c.ahead) c).Recognizes c balanced
      fun c => c.kind = .rightBrace := by
  refine contentOf_recognizes h.le (fun hne => ⟨fun hnil => hne ?_, ?_⟩) fun hs hc hk => ?_
  · have hlen := congrArg List.length hnil
    rwa [Lexeme.length_signs, List.length_take_of_le h.le] at hlen
  · rw [Lexeme.map_kind_signs]
    exact Run.closes_take h
  · exact ⟨hs.1, (bracedLength_of_spells hs.2 hc hk).1.symm⟩

theorem opens_bracedValue : Opens Grammar.bracedValue (·.kind = .leftBrace) := opens_braces _

theorem bracedValue_recognizes (c : Cursor) :
    (bracedValue c).Recognizes c Grammar.bracedValue F := by
  by_cases h : c.kind = .leftBrace
  · rw [bracedValue_braced h, Grammar.bracedValue, braces, mul_assoc]
    refine .andThen (takeKind_recognizes h (by decide)) (.seen ?_)
    by_cases hclosed : Run.bracedLength 0 (take c).rest.ahead < (take c).rest.ahead.length
    · exact .bind (balanced_recognizes hclosed) (.last (expect_recognizes (by decide) _))
        (.of_opens (opens_one _) fun _ hk => hk)
    · -- No brace closes the value: its content goes up to the end, where a brace is missing.
      have hcount := Nat.le_antisymm (bracedLength_le 0 _) (Nat.not_lt.mp hclosed)
      refine .refuse (fun hc => ?_) fun hs hc _ => ?_
      · rw [hcount] at hc
        obtain ⟨hcontent, hclosing⟩ := clean_bind.mp hc
        have hk := kind_of_expect (clean_bind.mp hclosing).1
        rw [contentOf_rest hcontent] at hk
        cases hk
      · obtain ⟨a, ha, b, hb, rfl⟩ := Language.mem_mul.mp hs
        obtain ⟨c₁, h₁, h₂⟩ := hc.split
        obtain ⟨hlen, hlt⟩ := bracedLength_of_spells ha.2 h₁ ((opens_one _).sign hb h₂)
        exact hclosed (hlen ▸ hlt)
  · refine .refuse (fun hc => ?_) fun hs hc _ => h (opens_bracedValue.sign hs hc)
    rw [bracedValue_bare h] at hc
    exact lacking_not_clean .leftBrace rfl c (clean_bind.mp hc).1

/-! ## Plain values -/

/-- Where a plain value may end. -/
structure EndsPlain (context : Run.Context) (c : Cursor) : Prop where
  ends : c.kind ∈ stops context ∨
    context ≠ .action ∧ c.kind = .exclamationMark ∧ c.kindAt 1 = .importantKeyword
  unmarked : context ≠ .action → ¬c.Marked
  compares : context = .evaluation → (c.kindAt 1).isComparison = false

theorem EndsPlain.valueLength (h : EndsPlain context c) (first : Bool) :
    Run.valueLength context first c.ahead = 0 := by
  cases hc : c.ahead with
  | nil => rfl
  | cons l rest =>
    have hk : c.kind = l.kind := by simp [Cursor.kind, Cursor.kindAt, Lexeme.kindAt, hc]
    have hnext : c.kindAt 1 = Lexeme.kindAt rest 0 := by simp [Cursor.kindAt, Lexeme.kindAt, hc]
    have hends : Run.endsValue context first l.kind rest = true := by
      rcases h.ends with hs | ⟨ha, hm, hi⟩
      · exact Run.endsValue_of_stops (hk ▸ hs) first rest
      · rw [← hk, hm, Run.endsValue_mark, ← hnext, hi]
        simpa using ha
    simp [Run.valueLength, hends]

theorem EndsPlain.not_comparison (h : EndsPlain context c) :
    c.kind.isComparison = false ∧ c.kind ≠ .period := by
  rcases h.ends with hs | ⟨-, hm, -⟩
  · revert hs
    generalize c.kind = k
    cases context <;> cases k <;> simp [stops, Kind.isComparison]
  · simp [hm, Kind.isComparison]

/-- A name in a plain value compares with what is in the value, not with what is behind it. -/
theorem EndsPlain.compares_of_next {ls : List Lexeme} (h : EndsPlain .evaluation c)
    (hls : Run.comparesNext (ls ++ c.ahead) = true) : Compares (ls.map Lexeme.kind) := by
  obtain ⟨hkind, hperiod⟩ := h.not_comparison
  have hnext := h.compares rfl
  simp only [Cursor.kind, Cursor.kindAt, Lexeme.kindAt] at hkind hperiod hnext
  simp only [Run.comparesNext, Lexeme.kindAt, Bool.or_eq_true, Bool.and_eq_true] at hls
  rcases ls with _ | ⟨x, _ | ⟨y, _ | ⟨z, more⟩⟩⟩
  · rw [List.nil_append, hkind] at hls
    exact absurd (of_decide_eq_true (hls.resolve_left (by simp)).1) hperiod
  · exact .inl ⟨x.kind, [], rfl, by simpa [hnext] using hls⟩
  · exact .inl ⟨x.kind, [y.kind], rfl, by simpa [hkind] using hls⟩
  · rcases hls with hx | hz
    · exact .inl ⟨x.kind, _, rfl, by simpa using hx⟩
    · have hp : x.kind = .period := by simpa using hz.1
      exact .inr ⟨y.kind, z.kind, more.map Lexeme.kind, by simp [hp], by simpa using hz.2⟩

theorem unended_of_isPlain {ls : List Lexeme} (h : IsPlain context (ls.map Lexeme.kind))
    (hends : EndsPlain context c) (hb : c.behind.map Lexeme.kind = (ls.map Lexeme.kind).getLast?) :
    Run.Unended context true ls c.ahead := by
  rintro before l after rfl
  have hmem : l.kind ∉ stops context := h.goesOn _ (by simp)
  refine Run.endsValue_false hmem (fun ha hm hi => ?_) ?_
  · cases after with
    | nil => exact hends.unmarked ha ⟨hi, by simp [hb, hm]⟩
    | cons x after =>
      have hx : x.kind = .importantKeyword := by simpa [Lexeme.kindAt] using hi
      refine h.goesOn x.kind (by simp) ?_
      rw [hx]
      cases context <;> simp_all [stops]
  · rintro rfl hfirst hname
    have hne : before.map Lexeme.kind ≠ [] := by
      rintro hnil
      simp_all
    have hcompares := h.compares rfl _ l.kind (after.map Lexeme.kind) (by simp) hne hname
    exact Bool.eq_false_iff.mpr fun hnext => hcompares (hends.compares_of_next hnext)

theorem signs_mem_plainValue {behind : Option Lexeme} {ls : List Lexeme} :
    Lexeme.signs behind ls ∈ plainValue context ↔ IsPlain context (ls.map Lexeme.kind) := by
  show IsPlain context _ ↔ _
  rw [Lexeme.map_kind_signs]

theorem plainValue_recognizes (h : ¬(c.kind = .leftBrace ∧ context ≠ .evaluation)) :
    (value context c).Recognizes c (plainValue context) (EndsPlain context) := by
  rw [value_plain h]
  refine .seen (.last (contentOf_recognizes (valueLength_le ..) (fun hne => ?_) fun hs hc hF => ?_))
  · refine signs_mem_plainValue.mpr (Run.isPlain_of_unended ?_ (Run.unended_take context true _))
    cases hc : c.ahead with
    | nil => simp [hc, Run.valueLength] at hne
    | cons l rest =>
      obtain ⟨count, hcount⟩ := Nat.exists_eq_succ_of_ne_zero hne
      rw [hc] at hne hcount
      refine ⟨l, rest.take count, by rw [hcount, List.take_succ_cons], fun hl => hne ?_⟩
      have hk : c.kind = l.kind := by simp [Cursor.kind, Cursor.kindAt, Lexeme.kindAt, hc]
      have hcontext : context = .evaluation := by_contra fun hn => h ⟨hk.trans hl, hn⟩
      simp [Run.valueLength, hl, hcontext, Run.endsValue]
  · obtain ⟨ls, hp, rfl⟩ := id hc
    have hplain := signs_mem_plainValue.mp hs
    have hne : Lexeme.signs c.behind ls ≠ [] := by
      obtain ⟨k, more, hks, -⟩ := hs.starts
      rintro hnil
      rw [hnil] at hks
      cases hks
    have hb := hc.behind_kind hne
    rw [← List.getLast?_map, Lexeme.map_kind_signs] at hb
    rw [hp.ahead, Run.valueLength_append (unended_of_isPlain hplain hF hb), hF.valueLength]
    exact ⟨hne, Lexeme.length_signs ..⟩

theorem opens_plainValue : Opens (plainValue context) fun s =>
    s.kind ≠ .leftBrace ∧ s.kind ∉ stops context := by
  intro ss hs
  obtain ⟨k, more, hks, hk⟩ := hs.starts
  obtain ⟨s, rest, rfl, rfl, -⟩ := List.map_eq_cons_iff.mp hks
  exact ⟨s, rest, rfl, hk, hs.goesOn _ (by simp)⟩

theorem value_recognizes (hcontext : context ≠ .evaluation) (c : Cursor) :
    (value context c).Recognizes c (plainValue context + Grammar.bracedValue)
      (EndsPlain context) := by
  by_cases h : c.kind = .leftBrace
  · rw [value_braced h hcontext]
    refine (bracedValue_recognizes c).widen (fun _ hs => .inr hs) fun hs hc _ => ?_
    exact hs.elim (fun hs => absurd h (opens_plainValue.sign hs hc).1) fun hs => hs
  · refine (plainValue_recognizes (mt And.left h)).widen (fun _ hs => .inl hs) fun hs hc _ => ?_
    exact hs.elim (fun hs => hs) fun hs => absurd (opens_bracedValue.sign hs hc) h

/-- What a plain value reads is counted. -/
theorem plainValue_rest (h : ¬(c.kind = .leftBrace ∧ context ≠ .evaluation))
    (hc : (value context c).Clean) :
    Run.valueLength context true c.ahead ≠ 0 ∧
      (value context c).rest = c.advance (Run.valueLength context true c.ahead) := by
  rw [value_plain h] at hc ⊢
  have hcontent : (bracedValue.contentOf (Run.valueLength context true c.ahead) c).Clean :=
    (clean_bind.mp (clean_bind.mp hc).2).1
  have hne : Run.valueLength context true c.ahead ≠ 0 :=
    fun hzero => contentOf_zero c (hzero ▸ hcontent)
  obtain ⟨content, hx⟩ := contentOf_run hne (valueLength_le ..)
  exact ⟨hne, congrArg Outcome.rest hx⟩

/-- A value leaves no exclamation mark of a qualifier behind. -/
theorem value_not_marked (hcontext : context ≠ .action) (hc : (value context c).Clean) :
    ¬(value context c).rest.Marked := by
  by_cases h : c.kind = .leftBrace ∧ context ≠ .evaluation
  · rw [value_braced h.1 h.2] at hc ⊢
    obtain ⟨ss, hs, hsp⟩ := (@bracedValue_recognizes (fun _ => True) c).sound hc
    obtain ⟨a, -, b, ⟨s, hk, rfl⟩, rfl⟩ := Language.mem_mul.mp hs
    refine hsp.not_marked (by simp) fun t ht => ?_
    have hst : s = t := by simpa using ht
    rw [← hst, show s.kind = .rightBrace from hk]
    decide
  · obtain ⟨hne, hrest⟩ := plainValue_rest h hc
    rw [hrest]
    rintro ⟨hi, hb⟩
    rcases List.eq_nil_or_concat (c.ahead.take (Run.valueLength context true c.ahead)) with
      hnil | ⟨before, l, htake⟩
    · have hahead := (List.take_eq_nil_iff.mp hnil).resolve_left hne
      simp [Cursor.kind, Cursor.kindAt, Lexeme.kindAt, Cursor.advance, hahead] at hi
    · have hends := Run.unended_take context true c.ahead before l [] (by simpa using htake)
      have hl : l.kind = .exclamationMark := by
        simpa [Cursor.advance, htake] using hb
      have hnext : Lexeme.kindAt (c.ahead.drop (Run.valueLength context true c.ahead)) 0
          = .importantKeyword := hi
      simp [hl, Run.endsValue_mark, hnext, hcontext] at hends

/-! ## Qualifiers behind something -/

/-- Behind what a qualifier may follow, an exclamation mark is left to the qualifier. -/
theorem qualified_recognizes {p : Production α} {f : α → Option Draft → Production β}
    {before : Cursor → Prop} (hp : (p c).Recognizes c L before)
    (hmark : (p c).Clean → ¬(p c).rest.Marked) (hne : ∀ ss ∈ L, ss ≠ [])
    (hf : (f (p c).value (qualifier (p c).rest).value (qualifier (p c).rest).rest).Recognizes
      (qualifier (p c).rest).rest M F)
    (hM : Opens M fun s => s.kind ≠ .importantKeyword ∧ s.kind ≠ .exclamationMark)
    (hbefore : Cursor.Leads (maybe Grammar.qualifier * M) F fun c => ¬c.Marked → before c) :
    ((p >>= fun v => qualifier >>= f v) c).Recognizes c (qualified L * M) F := by
  have hrest : ((qualifier >>= f (p c).value) (p c).rest).Recognizes (p c).rest
      (maybe Grammar.qualifier * M) F :=
    .bind (qualifier_recognizes _) hf (.of_opens hM fun c h hq => hq.elim h.1 (h.2 ·.1))
  refine ⟨fun hc => ?_, fun {ss c'} hs hc hF => ?_⟩
  · obtain ⟨hfirst, hsecond⟩ := clean_bind.mp hc
    obtain ⟨a, ha, hsa⟩ := hp.sound hfirst
    obtain ⟨b, hb, hsb⟩ := hrest.sound hsecond
    refine ⟨a ++ b, ?_, hsa.trans hsb⟩
    obtain ⟨q, hq, m, hm, rfl⟩ := Language.mem_mul.mp hb
    rcases hq with hq | hq | hq
    · cases (Language.mem_one ..).mp hq
      exact Language.mem_mul.mpr ⟨a, .inl (.inl ha), m, hm, rfl⟩
    · obtain ⟨i, hi, rfl⟩ := hq
      have hlast : ∀ s ∈ a.getLast?, s.kind ≠ .exclamationMark := by
        intro s hs hk
        refine hmark hfirst ⟨hsb.kind_eq.trans hi, ?_⟩
        rw [hsa.behind_kind (hne a ha), Option.mem_def.mp hs, Option.map_some, hk]
      have hword : a ++ [i] ∈ qualified L :=
        .inl (.inr (Language.mem_mul.mpr ⟨a, ⟨ha, hlast⟩, [i], ⟨i, hi, rfl⟩, rfl⟩))
      exact Language.mem_mul.mpr ⟨a ++ [i], hword, m, hm, List.append_assoc ..⟩
    · have hword : a ++ q ∈ qualified L := .inr (Language.mem_mul.mpr ⟨a, ha, q, hq, rfl⟩)
      exact Language.mem_mul.mpr ⟨a ++ q, hword, m, hm, List.append_assoc ..⟩
  · have hend {a b : List Sign} {c₁ : Cursor} (ha : a ∈ L) (hb : b ∈ maybe Grammar.qualifier * M)
        (h₁ : c.Spells a c₁) (h₂ : c₁.Spells b c') (hn : ¬c₁.Marked) :
        ((p >>= fun v => qualifier >>= f v) c).Clean ∧
          ((p >>= fun v => qualifier >>= f v) c).rest = c' := by
      obtain ⟨hfirst, rfl⟩ := hp.complete ha h₁ (hbefore b c₁ c' hb h₂ hF hn)
      obtain ⟨hsecond, hlast⟩ := hrest.complete hb h₂ hF
      exact ⟨clean_bind.mpr ⟨hfirst, hsecond⟩, hlast⟩
    obtain ⟨x, hx, m, hm, rfl⟩ := Language.mem_mul.mp hs
    rcases hx with (ha | hx) | hx
    · obtain ⟨c₁, h₁, h₂⟩ := hc.split
      refine hend ha (Language.mem_mul.mpr ⟨[], .inl rfl, m, hm, rfl⟩) h₁ h₂ fun hn => ?_
      exact (hM.sign hm h₂).1 hn.1
    · obtain ⟨a, ⟨ha, hlast⟩, q, hq, rfl⟩ := Language.mem_mul.mp hx
      rw [List.append_assoc] at hc
      obtain ⟨c₁, h₁, h₂⟩ := hc.split
      refine hend ha (Language.mem_mul.mpr ⟨q, .inr (.inl hq), m, hm, rfl⟩) h₁ h₂ ?_
      exact h₁.not_marked (hne a ha) hlast
    · obtain ⟨a, ha, q, hq, rfl⟩ := Language.mem_mul.mp hx
      rw [List.append_assoc] at hc
      obtain ⟨c₁, h₁, h₂⟩ := hc.split
      refine hend ha (Language.mem_mul.mpr ⟨q, .inr (.inr hq), m, hm, rfl⟩) h₁ h₂ fun hn => ?_
      obtain ⟨c₂, hq₂, -⟩ := h₂.split
      have hk := ((opens_one _).mul _).sign hq hq₂
      exact absurd (hk.symm.trans hn.1) (by decide)

theorem not_comparison_of_stops {k : Kind} (h : k ∈ stops context) : k.isComparison = false := by
  revert h
  cases context <;> cases k <;> simp [stops, Kind.isComparison]

/-- A plain value may end in front of a qualifier, and of what follows one. -/
theorem leads_endsPlain (hcontext : context ≠ .action) (hM : Opens M (·.kind ∈ stops context))
    (hnext : Cursor.Leads M F fun c => context = .evaluation → (c.kindAt 1).isComparison = false) :
    Cursor.Leads (maybe Grammar.qualifier * M) F fun c => ¬c.Marked → EndsPlain context c := by
  have himportant : Kind.importantKeyword ∈ stops context := by
    cases context <;> simp_all [stops]
  rw [maybe, Grammar.qualifier, add_mul, one_mul, add_mul]
  refine .add (fun ss c c' hs hc hF hn => ?_) (.add (fun ss c c' hs hc hF hn => ?_) ?_)
  · exact ⟨.inl (hM.sign hs hc), fun _ => hn, hnext ss c c' hs hc hF⟩
  · obtain ⟨a, ⟨i, hi, rfl⟩, m, hm, rfl⟩ := Language.mem_mul.mp hs
    obtain ⟨t, rest, rfl, ht⟩ := hM m hm
    have hk : c.kind = .importantKeyword := hc.kind_eq.trans hi
    refine ⟨.inl (hk ▸ himportant), fun _ => hn, fun _ => ?_⟩
    rw [hc.kindAt_one]
    exact not_comparison_of_stops ht
  · intro ss c c' hs hc hF hn
    obtain ⟨q, hq, m, hm, rfl⟩ := Language.mem_mul.mp hs
    obtain ⟨c₁, h₁, -⟩ := hc.split
    obtain ⟨a, ⟨x, hx, rfl⟩, b, ⟨i, hi, rfl⟩, rfl⟩ := Language.mem_mul.mp hq
    have hk : c.kind = .exclamationMark := h₁.kind_eq.trans hx
    have hkn : c.kindAt 1 = .importantKeyword := h₁.kindAt_one.trans hi
    exact ⟨.inr ⟨hcontext, hk, hkn⟩, fun _ => hn, fun _ => hkn ▸ rfl⟩

/-! ## Rules -/

theorem declared_ne_nil : ∀ ss ∈ declared, ss ≠ [] := by
  rintro ss (hs | hs)
  · exact opens_plainValue.ne_nil hs
  · exact opens_bracedValue.ne_nil hs

/-- The end of a rule and of a transition. -/
theorem declared_recognizes {f : Draft → Option Draft → Draft → Draft} (c : Cursor) :
    ((value .declaration >>= fun content => qualifier >>= fun mark =>
      expect .semicolon >>= fun semicolon => pure (f content mark semicolon) :
        Production Draft) c).Recognizes c (qualified declared * one .semicolon) F := by
  refine qualified_recognizes (value_recognizes (by decide) c) (value_not_marked (by decide))
    declared_ne_nil (.last (expect_recognizes (by decide) _)) ?_ (leads_endsPlain (by decide) ?_ ?_)
  · exact (opens_one _).imp fun s hs => by simp [hs]
  · exact (opens_one _).imp fun s hs => by simp [hs, stops]
  · exact fun _ _ _ _ _ _ h => by cases h

theorem rule_recognizes (h : c.kind ≠ .triggerKeyword) :
    (rule c).Recognizes c Grammar.rule F := by
  have hopens : Opens (Grammar.qualifiedName * (one .colon * (qualified declared * one .semicolon)))
      fun s => s.kind.isName := opens_qualifiedName.mul _
  simp only [Grammar.rule, mul_assoc]
  refine .starting (.bind (qualifiedName_recognizes _ c) (.andThen (expect_recognizes (by decide) _)
    (declared_recognizes _)) ?_) hopens h
  exact .of_opens (((opens_one .colon).mul _).ne (by decide)) fun c hk howned => hk howned.1

/-! ## Transitions -/

theorem transitionArguments_listing :
    Listing (fun c => nameStarts.contains c.kind) (takeAs .identifier) name (fun _ => True)
      fun c => c.kind = .rightParen := by
  refine ⟨fun c h => ?_, fun c h => ?_, fun ss c c' hs hc => ?_, fun _ _ _ _ _ => trivial,
    fun c h => ⟨trivial, ?_, ?_⟩⟩
  · rw [contains_nameStarts] at h
    exact (name_item .plain (SlotRole.admits_plain ..) h).reads
  · exact takeName_recognizes (contains_nameStarts _ ▸ h)
  · rw [contains_nameStarts]
    exact opens_sign.sign hs hc
  · simp [h]
  · rw [h]
    decide

theorem transitionArguments_recognizes (c : Cursor) :
    (transitionArguments c).Recognizes c (parentheses (maybe (Grammar.list name))) F := by
  rw [parentheses, mul_assoc]
  refine .andThen (expect_recognizes (show Kind.leftParen ≠ .eof by decide) c) (.bind
    (separated_maybe_recognizes transitionArguments_listing _)
    (.given (.last (expect_recognizes (show Kind.rightParen ≠ .eof by decide) _))) ?_)
  exact .of_opens (opens_one _) fun _ h => h

theorem transition_recognizes (h : c.kind = .transitionKeyword) :
    (transition c).Recognizes c Grammar.transition F := by
  simp only [Grammar.transition, mul_assoc]
  exact .andThen (takeKind_recognizes h (by decide)) (.andThen (transitionArguments_recognizes _)
    (.andThen (expect_recognizes (show Kind.colon ≠ .eof by decide) _) (declared_recognizes _)))

end Production

end Stylesheet
