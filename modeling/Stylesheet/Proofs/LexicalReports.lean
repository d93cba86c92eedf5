import Mathlib.Data.List.Infix
import Stylesheet.Proofs.Partition

/-!
# What a scan reports

Three things can be wrong with lexemes: a character that starts none, a string without its second
quote, and a comment without its end. All of them can be told from what was found: the first from a
lexeme's kind, the others from a text read once more from its start. So the reports of a scan are read
off its lexemes, and there are no others.

A quote at the end of a string need not close it, for a backslash takes it along, as in `"a\"`. And a
comment is not closed by the star it opens with, as in `/*/`. Nothing stands behind a comment that
stays open, so there is one of them at most.

Results:
* `Gap.problem?`, `Lexeme.problem?`: what is wrong with trivia and with a lexeme.
* `Cut.lexeme_problem`, `Cut.trivia?_problem`: a cut has that problem, and no other.
* `Lexemes.scanFrom_reports`, `Lexemes.scanFrom_endsOpen`: the reports of a text.
* `Lexemes.scan_reports`: what a scan reports, and where.
-/
namespace Stylesheet

/-! ## Problems -/

/-- Whether a quote comes in a text that is read from left to right. A backslash takes the next
character with it. -/
def Lexeme.quoteComes (quote : Char) : Text → Bool
  | '\\' :: _ :: cs => quoteComes quote cs
  | '\\' :: [] => false
  | c :: cs => c = quote || quoteComes quote cs
  | [] => false

/-- What is wrong with a lexeme, by its kind and its text. -/
def Lexeme.problem? (l : Lexeme) : Option Problem :=
  match l.kind, l.text with
  | .unknown, c :: _ => some (.unknownCharacter c)
  | .string, quote :: cs => if quoteComes quote cs then none else some .unterminatedString
  | _, _ => none

/-- What is wrong with a stretch of trivia. The first two characters of a comment open it. -/
def Gap.problem? (gap : Gap) : Option Problem :=
  match gap.kind, gap.text with
  | .multiLineComment, _ :: _ :: cs => if closer <:+: cs then none else some .unterminatedComment
  | _, _ => none

/-- What is reported of the trivia that starts at an offset. -/
def Gap.reports (p : Nat × Gap) : List Diagnostic :=
  (p.2.problem?.map (·.reportAt (Span.ofWidth p.1 p.2.width))).toList

/-- What is reported of a lexeme whose text starts at an offset, and of the trivia around it. -/
def Lexeme.reports (p : Nat × Lexeme) : List Diagnostic :=
  (Gap.located (p.1 - p.2.leadingWidth) p.2.leading).flatMap Gap.reports
    ++ (p.2.problem?.map (·.reportAt (Span.ofWidth p.1 p.2.width))).toList
    ++ (Gap.located (p.1 + p.2.width) p.2.trailing).flatMap Gap.reports

/-! ## Cuts -/

namespace Cut

theorem quoteComes_other {quote c : Char} (h : c ≠ '\\') (cs : Text) :
    Lexeme.quoteComes quote (c :: cs) = (c = quote || Lexeme.quoteComes quote cs) := by
  rw [Lexeme.quoteComes]
  · exact fun _ _ hc _ => h hc
  · exact fun hc _ => h hc

/-- A string that a scan finds closed is one where the quote comes, in what the scan took. -/
theorem quoteComes_take (quote : Char) (cs : Text) :
    Lexeme.quoteComes quote (cs.take (stringTail quote cs).1) = (stringTail quote cs).2 := by
  fun_induction stringTail quote cs with
  | case1 => rfl
  | case2 => rfl
  | case3 c cs hc => rfl
  | case4 c cs hc more closed hx ih =>
    rw [hx] at ih
    exact ih
  | case5 c cs hnil hcons hc => rfl
  | case6 cs hnil hcons hc =>
    rw [List.take_succ_cons, quoteComes_other (ne_backslash hnil hcons)]
    simp
  | case7 c cs hnil hcons hc hq more closed hx ih =>
    rw [hx] at ih
    rw [List.take_succ_cons, quoteComes_other (ne_backslash hnil hcons), ih]
    simp [hq]

/-- Nothing is wrong with a word. -/
theorem problem?_of_isName {kind : Kind} (h : kind.isName) (leading trailing : List Gap)
    (text : Text) : Lexeme.problem? ⟨leading, kind, text, trailing⟩ = none := by
  revert h
  cases kind <;> first | exact fun _ => rfl | nofun

/-- A cut of a lexeme has the problem of what it takes. -/
theorem lexeme_problem (c : Char) (cs : Text) (leading trailing : List Gap) :
    (lexeme c cs).problem?
      = Lexeme.problem? ⟨leading, (lexeme c cs).kind, c :: cs.take (lexeme c cs).more, trailing⟩ := by
  by_cases hq : c = '"' || c = '\''
  · have hquote : Lexicon.Quote c := by simpa [Lexicon.Quote] using hq
    rw [lexeme_quote hquote]
    simp [Lexeme.problem?, quoteComes_take]
  fun_cases lexeme c cs with
  | case31 => exact (problem?_of_isName (wordKind_isName _) _ _ _).symm
  | case32 => contradiction
  | _ => rfl

/-- A cut of trivia has the problem of what it takes. -/
theorem trivia?_problem {side : Side} {c : Char} {cs : Text} {cut : Cut TriviaKind} :
    trivia? side c cs = some cut →
      cut.problem? = Gap.problem? ⟨cut.kind, c :: cs.take cut.more⟩ := by
  fun_cases trivia? side c cs with
  | case2 cs more closed htail =>
    rintro ⟨⟩
    have hspec := commentTail_spec cs
    rw [htail] at hspec
    rw [Nat.add_comm 1, List.take_succ_cons]
    obtain ⟨rfl, inner, htake, -⟩ | ⟨rfl, hnone, rfl⟩ := hspec
    · have hcloser : Gap.closer <:+: cs.take more := htake ▸ (List.suffix_append inner _).isInfix
      simp [Gap.problem?, hcloser]
    · simp [Gap.problem?, hnone]
  | case4 | case6 | case8 => rintro ⟨⟩
  | _ =>
    rintro ⟨⟩
    rfl

/-- A comment that stays open takes all that is left of its text. -/
theorem trivia?_open {side : Side} {c : Char} {cs : Text} {cut : Cut TriviaKind} :
    trivia? side c cs = some cut → cut.problem? ≠ none → cs.drop cut.more = [] := by
  fun_cases trivia? side c cs with
  | case2 cs more closed htail =>
    rintro ⟨⟩ hopen
    have hspec := commentTail_spec cs
    rw [htail] at hspec
    obtain ⟨rfl, -⟩ | ⟨-, -, rfl⟩ := hspec
    · exact absurd rfl hopen
    · rw [Nat.add_comm 1, List.drop_succ_cons, List.drop_length]
  | case4 | case6 | case8 => rintro ⟨⟩
  | _ =>
    rintro ⟨⟩ hopen
    exact absurd rfl hopen

end Cut

/-! ## Reports of what was found -/

namespace Scan

theorem gaps_reports (side : Cut.Side) (offset : Nat) (text : Text) :
    (gaps side offset text).reports
      = (Gap.located offset (gaps side offset text).value).flatMap Gap.reports := by
  fun_induction gaps side offset text with
  | case1 => rfl
  | case2 => rfl
  | case3 offset c cs cut hcut piece tail ih =>
    rw [Gap.located, List.flatMap_cons, Cut.reports, Cut.trivia?_problem hcut, ih]
    rfl

theorem next_reports (offset : Nat) (text : Text) :
    (next offset text).reports = Lexeme.reports
      (offset + (next offset text).value.leadingWidth, (next offset text).value) := by
  have hlead := gaps_reports .leading offset text
  cases hrest : (gaps .leading offset text).rest with
  | nil => simp [next_of_end hrest, Lexeme.reports, Lexeme.problem?, Gap.located, hlead]
  | cons c cs =>
    have hown := Cut.lexeme_problem c cs (next offset text).value.leading
      (next offset text).value.trailing
    unfold next at hown ⊢
    simp only [hrest] at hown ⊢
    rw [Lexeme.reports, ← hown, hlead, gaps_reports, Nat.add_sub_cancel]
    rfl

end Scan

theorem Lexemes.scanFrom_reports (offset : Nat) (text : Text) :
    (scanFrom offset text).reports
      = (Lexeme.located offset (scanFrom offset text).all).flatMap Lexeme.reports := by
  fun_induction scanFrom offset text with
  | case1 offset text first h => simpa [all, Lexeme.located] using Scan.next_reports offset text
  | case2 offset text first h hlt tail ih =>
    rw [ih, Scan.next_reports]
    rfl

/-! ## Comments that stay open -/

namespace Diagnostic

/-- One report at most is of a comment that stays open. It goes up to `stop`, and nothing is left to
read behind it. -/
def EndsOpen (ds : List Diagnostic) (stop : Nat) (rest : Text) : Prop :=
  ds.filter (·.code = .unterminatedComment) = []
    ∨ ∃ d, ds.filter (·.code = .unterminatedComment) = [d] ∧ d.span.stop = stop ∧ rest = []

theorem endsOpen_nil (stop : Nat) (rest : Text) : EndsOpen [] stop rest := .inl rfl

/-- What is reported of the rest of a text goes behind what was reported in front of it. -/
theorem EndsOpen.append {ds es : List Diagnostic} {stop : Nat} {middle rest : Text}
    (h : EndsOpen ds stop middle) (h' : EndsOpen es stop rest)
    (hend : middle = [] → es = [] ∧ rest = []) : EndsOpen (ds ++ es) stop rest := by
  rcases h with hnone | ⟨d, hone, hstop, hmiddle⟩
  · rwa [EndsOpen, List.filter_append, hnone, List.nil_append]
  · obtain ⟨rfl, hrest⟩ := hend hmiddle
    exact .inr ⟨d, by rw [List.append_nil, hone], hstop, hrest⟩

end Diagnostic

/-- No lexeme is a comment. -/
theorem Cut.lexeme_closed (c : Char) (cs : Text) (offset : Nat) (text : Text) :
    ((lexeme c cs).reports offset text).filter (·.code = .unterminatedComment) = [] := by
  cases hp : (lexeme c cs).problem? with
  | none => simp [reports, hp]
  | some p =>
    have hcode : p.code ≠ .unterminatedComment := by
      rw [lexeme_problem c cs [] []] at hp
      unfold Lexeme.problem? at hp
      split at hp
      · cases hp
        exact Code.noConfusion
      · split at hp <;> cases hp
        exact Code.noConfusion
      · cases hp
    simp [reports, hp, Problem.reportAt, hcode]

namespace Scan

/-- At the end of a text there is nothing to report. -/
theorem gaps_nil (side : Cut.Side) (offset : Nat) : gaps side offset [] = ⟨[], [], []⟩ := by
  rw [gaps]

theorem gaps_endsOpen (side : Cut.Side) (offset : Nat) (text : Text) :
    Diagnostic.EndsOpen (gaps side offset text).reports (offset + Text.width text)
      (gaps side offset text).rest := by
  fun_induction gaps side offset text with
  | case1 | case2 => exact Diagnostic.endsOpen_nil _ _
  | case3 offset c cs cut hcut piece tail ih =>
    have hwidth : Text.width piece + Text.width (cs.drop cut.more) = Text.width (c :: cs) := by
      rw [← Text.width_append]
      simp [piece]
    rw [Nat.add_assoc, hwidth] at ih
    refine @Diagnostic.EndsOpen.append _ _ _ (cs.drop cut.more) _ ?_ ih ?_
    · cases hp : cut.problem? with
      | none => simp [Cut.reports, hp, Diagnostic.endsOpen_nil]
      | some p =>
        have hdrop := Cut.trivia?_open hcut (by simp [hp])
        obtain rfl := Cut.problem_of_trivia hcut hp
        rw [hdrop, Text.width_nil, Nat.add_zero] at hwidth
        refine .inr ⟨Problem.unterminatedComment.reportAt (Span.ofWidth offset (Text.width piece)),
          ?_, by rw [← hwidth]; rfl, hdrop⟩
        simp [Cut.reports, hp, Problem.reportAt, Problem.code]
    · intro hdrop
      simp [tail, hdrop, gaps_nil]

theorem next_endsOpen (offset : Nat) (text : Text) :
    Diagnostic.EndsOpen (next offset text).reports (offset + Text.width text)
      (next offset text).rest := by
  have hlead := gaps_endsOpen .leading offset text
  cases hrest : (gaps .leading offset text).rest with
  | nil =>
    rw [hrest] at hlead
    rwa [next_of_end hrest]
  | cons c cs =>
    have hwidth : Text.width (Gap.textOf (gaps .leading offset text).value)
        + (Text.width (c :: cs.take (Cut.lexeme c cs).more)
          + Text.width (cs.drop (Cut.lexeme c cs).more)) = Text.width text := by
      rw [← Text.width_append, ← Text.width_append, List.cons_append, List.take_append_drop,
        ← hrest, gaps_fullText]
    -- Something is left, so the trivia in front has its ends.
    have hclosed := hlead.resolve_right (by rintro ⟨d, -, -, hnil⟩; rw [hrest] at hnil; cases hnil)
    have htrail (start : Nat) := gaps_endsOpen .trailing start (cs.drop (Cut.lexeme c cs).more)
    unfold next
    simp only [hrest]
    rw [← hwidth, ← Nat.add_assoc, ← Nat.add_assoc, Diagnostic.EndsOpen, List.filter_append,
      List.filter_append, hclosed, Cut.lexeme_closed]
    exact htrail _

end Scan

namespace Lexemes

theorem scanFrom_nil (offset : Nat) : scanFrom offset [] = ⟨[], .past, []⟩ := by
  have hnext : Scan.next offset [] = ⟨.past, [], []⟩ := by simp [Scan.next, Scan.gaps_nil, Lexeme.past]
  rw [scanFrom_of_eof (by rw [hnext]; rfl), hnext]

theorem scanFrom_endsOpen (offset : Nat) (text : Text) :
    Diagnostic.EndsOpen (scanFrom offset text).reports (offset + Text.width text) [] := by
  fun_induction scanFrom offset text with
  | case1 offset text first h =>
    have hfirst := Scan.next_endsOpen offset text
    rwa [(Scan.next_final h).2.2] at hfirst
  | case2 offset text first h hlt tail ih =>
    rw [Nat.add_assoc, Scan.next_width] at ih
    refine (Scan.next_endsOpen offset text).append ih fun hrest => ⟨?_, rfl⟩
    simp [tail, show first.rest = [] from hrest, scanFrom_nil]

end Lexemes

/-! ## Whole texts -/

namespace Lexicon

theorem Munch.text_unknown {kind : Kind} {word rest : Text} (h : Munch kind word rest)
    (hk : kind = .unknown) : ∃ c, word = [c] := by
  cases h with
  | longest h => exact absurd hk h.kind_ne
  | unknown => exact ⟨_, rfl⟩

theorem Munch.text_string {kind : Kind} {word rest : Text} (h : Munch kind word rest)
    (hk : kind = .string) : ∃ quote cs, word = quote :: cs ∧ Quote quote := by
  have hmarks : ∀ p ∈ marks, p.2 ≠ .string := by decide
  have hkeywords : ∀ p ∈ keywords, p.2 ≠ .string := by decide
  cases h with
  | unknown => cases hk
  | longest h =>
    cases h with
    | mark h => exact absurd hk (hmarks _ h)
    | keyword _ h => exact absurd hk (hkeywords _ h)
    | number | identifier => cases hk
    | string hq | unclosed hq | dangling hq => exact ⟨_, _, rfl, hq⟩

end Lexicon

namespace Lexemes

/-- The reports of a scan are the problems of its lexemes, and the texts of these can be read for
them. -/
structure ReportsProblems (text : Text) (ls : Lexemes) : Prop where
  reports : ls.reports = (Lexeme.located 0 ls.all).flatMap Lexeme.reports
  unknown : ∀ p ∈ Lexeme.located 0 ls.all, p.2.kind = .unknown → ∃ c, p.2.text = [c]
  string : ∀ p ∈ Lexeme.located 0 ls.all, p.2.kind = .string →
    ∃ quote cs, p.2.text = quote :: cs ∧ Lexicon.Quote quote
  comment : ∀ p ∈ Lexeme.located 0 ls.all, ∀ q ∈ Lexeme.gapsAt p, q.2.kind = .multiLineComment →
    ∃ cs, q.2.text = '/' :: '*' :: cs
  /-- One comment at most stays open, and it goes up to the end of the text. -/
  once : (ls.reports.filter (·.code = .unterminatedComment)).length ≤ 1
  last : ∀ d ∈ ls.reports, d.code = .unterminatedComment → d.span.stop = Text.width text

/-- A scan reports the problems of its lexemes, each where it is, and nothing else. -/
theorem scan_reports (text : Text) : (scan text).ReportsProblems text where
  reports := scanFrom_reports 0 text
  unknown := fun p hp hk => by
    obtain ⟨-, rest, -, -, -, hmunch⟩ := @scanFrom_munches 0 text [] p.1 p.2 hp (by simp [hk])
    exact hmunch.text_unknown hk
  string := fun p hp hk => by
    obtain ⟨-, rest, -, -, -, hmunch⟩ := @scanFrom_munches 0 text [] p.1 p.2 hp (by simp [hk])
    exact hmunch.text_string hk
  comment := fun ⟨start, l⟩ hp q hq hk => by
    obtain ⟨front, back, hsplit, rfl⟩ := Lexeme.mem_located hp
    rw [Nat.zero_add] at hq
    obtain ⟨-, -, before, behind, -, -, hfits⟩ := standsAt_of_split hsplit q hq
    rw [Gap.Fits, hk] at hfits
    exact hfits.imp fun cs h => h.1
  once := by
    rcases scanFrom_endsOpen 0 text with hnone | ⟨d, hone, -⟩
    · exact hnone ▸ Nat.zero_le 1
    · exact hone ▸ Nat.le_refl 1
  last := fun d hd hcode => by
    have hmem : d ∈ (scan text).reports.filter (·.code = .unterminatedComment) := by simp [hd, hcode]
    rcases scanFrom_endsOpen 0 text with hnone | ⟨e, hone, hstop, -⟩
    · rw [show (scan text).reports.filter _ = [] from hnone] at hmem
      cases hmem
    · rw [show (scan text).reports.filter _ = [e] from hone] at hmem
      rw [List.mem_singleton.mp hmem, hstop, Nat.zero_add]

/-- The star that opens a comment does not close it. -/
example : (scan ['/', '*', '/']).reports
    = [Problem.unterminatedComment.reportAt (Span.ofWidth 0 3)] := by decide +kernel

end Lexemes

end Stylesheet
