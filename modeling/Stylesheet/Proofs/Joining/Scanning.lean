import Stylesheet.Proofs.Scanning

/-!
# Scanning texts one after the other

A line end sets a scan straight: what is behind it is scanned as if it stood alone, as long as no
comment in front of it is still open. So the lexemes of two texts with a line end between them are
those of the one and those of the other. Only trivia moves: what ends the first text, and the line
end itself, stand in front of the first lexeme of the second one.

Results:
* `Scan.next_shift`, `Lexemes.scanFrom_shift`: only reports know where a text starts.
* `Cut.trivia?_append`, `Cut.lexeme_append`: what is cut in front of a line end is what is cut in
  front of the end of a text.
* `Lexemes.scan_append`: the lexemes of two texts with a line end between them.
-/
namespace Stylesheet

/-! ## Offsets -/

theorem Cut.reports_shift {κ : Type} (cut : Cut κ) (offset bytes : Nat) (text : Text) :
    cut.reports (offset + bytes) text = (cut.reports offset text).map (·.shift bytes) := by
  unfold Cut.reports
  cases cut.problem? with
  | none => rfl
  | some p =>
    simp only [Option.map_some, Option.toList_some, List.map_singleton]
    congr 1
    simp [Problem.reportAt, Diagnostic.shift, Span.shift, Span.ofWidth]
    omega

/-- What was found in a text that starts so many bytes further on. -/
def Scanned.shift {α : Type} (bytes : Nat) (s : Scanned α) : Scanned α :=
  { s with reports := s.reports.map (·.shift bytes) }

namespace Scan

theorem gaps_shift (side : Cut.Side) (offset bytes : Nat) (text : Text) :
    gaps side (offset + bytes) text = Scanned.shift bytes (gaps side offset text) := by
  fun_induction gaps side offset text with
  | case1 => rw [gaps]; rfl
  | case2 offset c cs h => rw [gaps, h]; rfl
  | case3 offset c cs cut h piece tail ih =>
    rw [gaps, h]
    simp only [Scanned.shift, List.map_append] at ih ⊢
    rw [Nat.add_right_comm, ih, Cut.reports_shift]

theorem next_shift (offset bytes : Nat) (text : Text) :
    next (offset + bytes) text = Scanned.shift bytes (next offset text) := by
  unfold next
  rw [gaps_shift]
  simp only [Scanned.shift]
  split
  · rfl
  · next c cs h =>
    simp only [List.map_append]
    rw [Nat.add_right_comm offset bytes, Nat.add_right_comm _ bytes, gaps_shift, Cut.reports_shift]
    rfl

end Scan

namespace Lexemes

/-- Lexemes so many bytes further on. -/
def shift (bytes : Nat) (ls : Lexemes) : Lexemes :=
  { ls with reports := ls.reports.map (·.shift bytes) }

theorem scanFrom_of_eof {offset : Nat} {text : Text}
    (h : (Scan.next offset text).value.kind = .eof) :
    scanFrom offset text
      = ⟨[], (Scan.next offset text).value, (Scan.next offset text).reports⟩ := by
  rw [scanFrom, dif_pos h]

theorem scanFrom_of_ne {offset : Nat} {text : Text}
    (h : (Scan.next offset text).value.kind ≠ .eof) :
    scanFrom offset text
      = let first := Scan.next offset text
        let tail := scanFrom (offset + first.value.fullWidth) first.rest
        ⟨first.value :: tail.body, tail.final, first.reports ++ tail.reports⟩ := by
  rw [scanFrom, dif_neg h]

theorem scanFrom_shift (offset bytes : Nat) (text : Text) :
    scanFrom (offset + bytes) text = (scanFrom offset text).shift bytes := by
  have hnext := Scan.next_shift offset bytes text
  fun_induction scanFrom offset text with
  | case1 offset text first h =>
    rw [scanFrom_of_eof (by rw [hnext]; exact h), hnext]
    rfl
  | case2 offset text first h hlt tail ih =>
    rw [scanFrom_of_ne (by rw [hnext]; exact h), hnext]
    have htail := ih (Scan.next_shift ..)
    simp only [Scanned.shift, shift] at htail ⊢
    rw [Nat.add_right_comm, htail]
    simp [first, tail]

end Lexemes

/-! ## Cuts -/

namespace Cut

theorem takeWhile_append_stop {α : Type} {p : α → Bool} {stop : α} (h : p stop = false)
    (xs ys : List α) : (xs ++ stop :: ys).takeWhile p = xs.takeWhile p := by
  induction xs with
  | nil => simp [h]
  | cons x xs ih => simp [List.takeWhile_cons, ih]

/-! ### Trivia -/

/-- A comment that is closed ends where it did. -/
theorem commentTail_append {cs : Text} (h : (commentTail cs).2 = true) (more : Text) :
    commentTail (cs ++ more) = commentTail cs ∧ (commentTail cs).1 ≤ cs.length := by
  fun_induction commentTail cs with
  | case1 => cases h
  | case2 rest => exact ⟨rfl, by simp⟩
  | case3 c cs hn n closed hx ih =>
    rw [hx] at ih
    obtain ⟨hmore, hle⟩ := ih h
    have hopen (tail : Text) (hc : c = '*') : cs ++ more ≠ '/' :: tail := by
      intro heq
      cases cs with
      | nil => cases hx; cases h
      | cons d ds =>
        obtain ⟨rfl, -⟩ := List.cons.inj heq
        exact hn ds hc rfl
    refine ⟨?_, Nat.succ_le_succ hle⟩
    rw [List.cons_append, commentTail, hmore]
    exact hopen

theorem cons_of_append {cs b t : Text} {d : Char} (hd : d ≠ '\n') (h : cs ++ '\n' :: b = d :: t) :
    ∃ u, cs = d :: u := by
  cases cs with
  | nil => exact absurd (List.cons.inj h).1.symm hd
  | cons x xs => exact ⟨xs, by rw [(List.cons.inj h).1]⟩

theorem trivia?_other {side : Side} {c : Char} {cs : Text} (hl : ∀ t, c = '/' → cs ≠ '/' :: t)
    (hm : ∀ t, c = '/' → cs ≠ '*' :: t) (hr : ∀ t, c = '\r' → cs ≠ '\n' :: t) :
    trivia? side c cs
      = if isLineEnd c then
          if side = .leading then some ⟨.endOfLine, 0, none⟩ else none
        else if isBlank c then some ⟨.whitespace, (cs.takeWhile isInlineBlank).length, none⟩
        else none := by
  unfold trivia?
  split
  · exact absurd rfl (hl _ rfl)
  · exact absurd rfl (hm _ rfl)
  · exact absurd rfl (hr _ rfl)
  · rfl

/-- Trivia in front of a line end is what it was. Only a carriage return would join it. -/
theorem trivia?_append {side : Side} {c : Char} {cs : Text} (b : Text)
    (hr : (c :: cs).getLast? ≠ some '\r')
    (hp : ∀ cut, trivia? side c cs = some cut → cut.problem? = none) :
    trivia? side c (cs ++ '\n' :: b) = trivia? side c cs ∧
      ∀ cut, trivia? side c cs = some cut → cut.more ≤ cs.length := by
  by_cases hl : c = '/' ∧ ∃ t, cs = '/' :: t
  · obtain ⟨rfl, t, rfl⟩ := hl
    refine ⟨?_, fun cut hcut => ?_⟩
    · simp only [List.cons_append, trivia?]
      rw [takeWhile_append_stop (by decide)]
    · cases hcut
      have := (List.takeWhile_prefix (!isLineEnd ·) (l := t)).length_le
      simp only [List.length_cons]
      omega
  by_cases hm : c = '/' ∧ ∃ t, cs = '*' :: t
  · obtain ⟨rfl, t, rfl⟩ := hm
    have hclosed : (commentTail t).2 = true := by
      have hnone := hp _ rfl
      cases hc : (commentTail t).2 with
      | true => rfl
      | false => simp [hc] at hnone
    obtain ⟨hmore, hle⟩ := commentTail_append hclosed ('\n' :: b)
    refine ⟨?_, fun cut hcut => ?_⟩
    · simp only [List.cons_append, trivia?]
      rw [hmore]
    · cases hcut
      simp only [List.length_cons]
      omega
  by_cases hn : c = '\r' ∧ ∃ t, cs = '\n' :: t
  · obtain ⟨rfl, t, rfl⟩ := hn
    refine ⟨rfl, fun cut hcut => ?_⟩
    simp only [trivia?] at hcut
    split at hcut
    · cases hcut
      simp
    · cases hcut
  · have hsame := @trivia?_other side c cs (fun t hc h => hl ⟨hc, t, h⟩) (fun t hc h => hm ⟨hc, t, h⟩)
      (fun t hc h => hn ⟨hc, t, h⟩)
    have hlong := @trivia?_other side c (cs ++ '\n' :: b)
      (fun t hc h => hl ⟨hc, cons_of_append (by decide) h⟩)
      (fun t hc h => hm ⟨hc, cons_of_append (by decide) h⟩)
      (fun t hc h => by
        cases cs with
        | nil => exact hr (by simp [hc])
        | cons d ds => exact hn ⟨hc, ds, by rw [(List.cons.inj h).1]⟩)
    rw [hsame, hlong, takeWhile_append_stop (by decide)]
    refine ⟨rfl, fun cut hcut => ?_⟩
    have := (List.takeWhile_prefix isInlineBlank (l := cs)).length_le
    split at hcut
    · split at hcut
      · cases hcut
        exact Nat.zero_le _
      · cases hcut
    · split at hcut
      · cases hcut
        exact this
      · cases hcut

/-! ### Lexemes -/

theorem dropWhile_append_stop {α : Type} {p : α → Bool} {stop : α} (h : p stop = false)
    (xs ys : List α) : (xs ++ stop :: ys).dropWhile p = xs.dropWhile p ++ stop :: ys := by
  induction xs with
  | nil => simp [h]
  | cons x xs ih =>
    rw [List.cons_append, List.dropWhile_cons, List.dropWhile_cons, ih]
    split <;> rfl

theorem numberTail_append (cs b : Text) :
    numberTail (cs ++ '\n' :: b) = numberTail cs ∧ numberTail cs ≤ cs.length := by
  have hlen := congrArg List.length (List.takeWhile_append_dropWhile (p := Char.isDigit) (l := cs))
  rw [List.length_append] at hlen
  unfold numberTail
  rw [takeWhile_append_stop (by decide), dropWhile_append_stop (by decide)]
  have hdigits : (cs.takeWhile Char.isDigit).length ≤ cs.length := by omega
  cases hdrop : cs.dropWhile Char.isDigit with
  | nil => exact ⟨rfl, hdigits⟩
  | cons x rest =>
    by_cases hx : x = '.'
    · subst hx
      cases rest with
      | nil => exact ⟨rfl, hdigits⟩
      | cons d rest =>
        have hrest := (List.takeWhile_prefix Char.isDigit (l := rest)).length_le
        rw [hdrop, List.length_cons, List.length_cons] at hlen
        simp only [List.cons_append, takeWhile_append_stop (show Char.isDigit '\n' = false by decide)]
        refine ⟨trivial, ?_⟩
        split <;> omega
    · simp only [List.cons_append]
      split
      · next d more heq => exact absurd (List.cons.inj heq).1 hx
      · split
        · next d more heq => exact absurd (List.cons.inj heq).1 hx
        · exact ⟨rfl, hdigits⟩

theorem stringTail_other {quote c : Char} (h : c ≠ '\\') (cs : Text) :
    stringTail quote (c :: cs)
      = if isLineEnd c then (0, false)
        else if c = quote then (1, true)
        else ((stringTail quote cs).1 + 1, (stringTail quote cs).2) := by
  rw [stringTail]
  · exact fun hc _ => h hc
  · exact fun _ _ hc _ => h hc

/-- A character that takes no other one with it, as the cases of a string have it. -/
theorem ne_backslash {c : Char} {cs : Text} (hnil : c = '\\' → cs = [] → False)
    (hcons : ∀ d ds, c = '\\' → cs = d :: ds → False) : c ≠ '\\' := fun hc => by
  cases cs with
  | nil => exact hnil hc rfl
  | cons d ds => exact hcons d ds hc rfl

theorem stringTail_append (quote : Char) (cs b : Text) :
    stringTail quote (cs ++ '\n' :: b) = stringTail quote cs
      ∧ (stringTail quote cs).1 ≤ cs.length := by
  have hline : isLineEnd '\n' := by decide
  fun_induction stringTail quote cs with
  | case1 =>
    rw [List.nil_append, stringTail_other (by decide), if_pos hline]
    exact ⟨rfl, Nat.le_refl 0⟩
  | case2 =>
    rw [List.cons_append, List.nil_append, stringTail, if_pos hline]
    exact ⟨rfl, Nat.le_refl 1⟩
  | case3 c cs hc =>
    rw [List.cons_append, List.cons_append, stringTail, if_pos hc]
    exact ⟨rfl, Nat.succ_le_succ (Nat.zero_le _)⟩
  | case4 c cs hc n closed hx ih =>
    rw [hx] at ih
    refine ⟨?_, Nat.add_le_add_right ih.2 2⟩
    rw [List.cons_append, List.cons_append, stringTail, if_neg hc, ih.1]
  | case5 c cs hnil hcons hc =>
    rw [List.cons_append, stringTail_other (ne_backslash hnil hcons), if_pos hc]
    exact ⟨rfl, Nat.zero_le _⟩
  | case6 cs hnil hcons hc =>
    rw [List.cons_append, stringTail_other (ne_backslash hnil hcons), if_neg hc, if_pos rfl]
    exact ⟨rfl, Nat.succ_le_succ (Nat.zero_le _)⟩
  | case7 c cs hnil hcons hc hq n closed hx ih =>
    rw [hx] at ih
    refine ⟨?_, Nat.succ_le_succ ih.2⟩
    rw [List.cons_append, stringTail_other (ne_backslash hnil hcons), if_neg hc, if_neg hq, ih.1]

theorem lexeme_lessThan (d : Char) (cs ds : Text) :
    lexeme '<' (d :: cs) = lexeme '<' (d :: ds) ∧ (lexeme '<' (d :: cs)).more ≤ 1 := by
  by_cases h₁ : d = '>'
  · subst h₁
    exact ⟨rfl, Nat.le_refl 1⟩
  by_cases h₂ : d = '='
  · subst h₂
    exact ⟨rfl, Nat.le_refl 1⟩
  · simp [lexeme, h₁, h₂]

theorem lexeme_greaterThan (d : Char) (cs ds : Text) :
    lexeme '>' (d :: cs) = lexeme '>' (d :: ds) ∧ (lexeme '>' (d :: cs)).more ≤ 1 := by
  by_cases h₁ : d = '>'
  · subst h₁
    exact ⟨rfl, Nat.le_refl 1⟩
  by_cases h₂ : d = '?'
  · subst h₂
    exact ⟨rfl, Nat.le_refl 1⟩
  by_cases h₃ : d = '='
  · subst h₃
    exact ⟨rfl, Nat.le_refl 1⟩
  · simp [lexeme, h₁, h₂, h₃]

/-- Characters that are a lexeme of their own. -/
def singles : List Char :=
  ['\x7b', '\x7d', '(', ')', '[', ']', ':', ';', ',', '.', '#', '@', '*', '!', '|', '+', '/', '%', '=']

theorem lexeme_single {c : Char} (h : c ∈ singles) (cs ds : Text) :
    lexeme c cs = lexeme c ds ∧ (lexeme c cs).more = 0 := by
  simp only [singles, List.mem_cons, List.not_mem_nil, or_false] at h
  rcases h with rfl | rfl | rfl | rfl | rfl | rfl | rfl | rfl | rfl | rfl | rfl | rfl | rfl | rfl | rfl |
    rfl | rfl | rfl | rfl <;> exact ⟨rfl, rfl⟩

theorem lexeme_other {c : Char} (h : c ∉ singles) (hm : c ∉ ['<', '>', '-']) (cs : Text) :
    lexeme c cs
      = if c.isDigit then ⟨.number, numberTail cs, none⟩
        else if isWordStart c then
          ⟨wordKind (c :: cs.takeWhile isWordPart), (cs.takeWhile isWordPart).length, none⟩
        else if c = '"' || c = '\'' then
          ⟨.string, (stringTail c cs).1,
            if (stringTail c cs).2 then none else some .unterminatedString⟩
        else ⟨.unknown, 0, some (.unknownCharacter c)⟩ := by
  unfold lexeme
  split
  all_goals first | rfl | (exact absurd (by decide) h) | (exact absurd (by decide) hm)

/-- A lexeme in front of a line end is what it was, a string without its second quote too. -/
theorem lexeme_append (c : Char) (cs b : Text) :
    lexeme c (cs ++ '\n' :: b) = lexeme c cs ∧ (lexeme c cs).more ≤ cs.length := by
  by_cases hs : c ∈ singles
  · obtain ⟨hsame, hmore⟩ := lexeme_single hs cs (cs ++ '\n' :: b)
    exact ⟨hsame.symm, by omega⟩
  by_cases hm : c ∈ ['<', '>', '-']
  · simp only [List.mem_cons, List.not_mem_nil, or_false] at hm
    cases cs with
    | nil => rcases hm with rfl | rfl | rfl <;> exact ⟨rfl, Nat.le_refl 0⟩
    | cons d ds =>
      rcases hm with rfl | rfl | rfl
      · obtain ⟨hsame, hmore⟩ := lexeme_lessThan d ds (ds ++ '\n' :: b)
        exact ⟨hsame.symm, Nat.le_trans hmore (by simp)⟩
      · obtain ⟨hsame, hmore⟩ := lexeme_greaterThan d ds (ds ++ '\n' :: b)
        exact ⟨hsame.symm, Nat.le_trans hmore (by simp)⟩
      · obtain ⟨hnumber, hle⟩ := numberTail_append (d :: ds) b
        simp only [List.cons_append, lexeme] at hnumber ⊢
        rw [hnumber]
        split
        · exact ⟨rfl, hle⟩
        · exact ⟨rfl, Nat.zero_le _⟩
  · obtain ⟨hnumber, hnumberLe⟩ := numberTail_append cs b
    obtain ⟨hstring, hstringLe⟩ := stringTail_append c cs b
    rw [lexeme_other hs hm, lexeme_other hs hm, takeWhile_append_stop (by decide), hnumber, hstring]
    refine ⟨rfl, ?_⟩
    split
    · exact hnumberLe
    split
    · exact (List.takeWhile_prefix isWordPart).length_le
    split
    · exact hstringLe
    · exact Nat.zero_le _

end Cut

/-! ## Open comments -/

/-- No comment goes on to the end of its text. -/
def CommentsClosed (reports : List Diagnostic) : Prop :=
  ∀ d ∈ reports, d.code ≠ .unterminatedComment

theorem commentsClosed_append {ds es : List Diagnostic} :
    CommentsClosed (ds ++ es) ↔ CommentsClosed ds ∧ CommentsClosed es :=
  List.forall_mem_append

theorem commentsClosed_nil : CommentsClosed [] := by simp [CommentsClosed]

/-- Trivia reports nothing but an open comment. -/
theorem Cut.problem_eq_none {side : Side} {c : Char} {cs : Text} {cut : Cut TriviaKind}
    (hc : trivia? side c cs = some cut) {offset : Nat} {text : Text}
    (h : CommentsClosed (cut.reports offset text)) : cut.problem? = none := by
  cases hp : cut.problem? with
  | none => rfl
  | some p =>
    obtain rfl := problem_of_trivia hc hp
    exact absurd rfl (h _ (by rw [Cut.reports, hp]; exact .head _))

/-! ## Scans -/

/-- The trivia that a line end is. -/
def Gap.newline : Gap := ⟨.endOfLine, ['\n']⟩

/-- A lexeme with more trivia in front of it. -/
def Lexeme.lead (gaps : List Gap) (l : Lexeme) : Lexeme := { l with leading := gaps ++ l.leading }

theorem Lexeme.fullWidth_lead (gaps : List Gap) (l : Lexeme) :
    (l.lead gaps).fullWidth = Text.width (Gap.textOf gaps) + l.fullWidth := by
  simp [lead, fullWidth, leadingWidth, width, trailingWidth, Gap.textOf, Nat.add_assoc]

theorem getLast?_drop_ne {c : Char} {cs : Text} (h : (c :: cs).getLast? ≠ some '\r') (n : Nat) :
    (cs.drop n).getLast? ≠ some '\r' := by
  rw [List.getLast?_drop]
  split
  · simp
  · cases cs with
    | nil => simp
    | cons d ds => simpa [List.getLast?_cons_cons] using h

namespace Scan

variable {side : Cut.Side} {offset : Nat} {a : Text}

/-- One piece of trivia in front of a line end. -/
theorem gaps_cons_append {c : Char} {cs : Text} {cut : Cut TriviaKind} (b : Text)
    (hr : (c :: cs).getLast? ≠ some '\r') (hc : Cut.trivia? side c cs = some cut)
    (hp : cut.problem? = none) :
    gaps side offset (c :: cs ++ '\n' :: b)
      = let piece := c :: cs.take cut.more
        let tail := gaps side (offset + Text.width piece) (cs.drop cut.more ++ '\n' :: b)
        ⟨⟨cut.kind, piece⟩ :: tail.value, tail.rest, tail.reports⟩ := by
  obtain ⟨hsame, hmore⟩ := Cut.trivia?_append b hr fun cut' h => by
    rw [hc] at h
    cases h
    exact hp
  have hle := hmore cut hc
  rw [List.cons_append, gaps, hsame, hc]
  simp [List.take_append_of_le_length hle, List.drop_append_of_le_length hle, Cut.reports, hp]

theorem reports_gaps (hp : CommentsClosed (gaps side offset a).reports) :
    (gaps side offset a).reports = [] := by
  fun_induction gaps side offset a with
  | case1 | case2 => rfl
  | case3 offset c cs cut hc piece tail ih =>
    obtain ⟨hcut, htail⟩ := commentsClosed_append.mp hp
    rw [Cut.reports, Cut.problem_eq_none hc hcut]
    exact ih htail

/-- Trivia that ends before the text does, or at a line end, ends where it did. -/
theorem gaps_append (b : Text) (hr : a.getLast? ≠ some '\r')
    (hp : CommentsClosed (gaps side offset a).reports)
    (hs : (gaps side offset a).rest ≠ [] ∨ side = .trailing) :
    gaps side offset (a ++ '\n' :: b)
      = ⟨(gaps side offset a).value, (gaps side offset a).rest ++ '\n' :: b, []⟩ := by
  fun_induction gaps side offset a with
  | case1 offset =>
    obtain rfl := hs.resolve_left (by simp)
    rw [List.nil_append, gaps]
    rfl
  | case2 offset c cs hc =>
    obtain ⟨hsame, -⟩ := Cut.trivia?_append b hr fun cut h => by
      rw [hc] at h
      cases h
    rw [List.cons_append, gaps, hsame, hc]
  | case3 offset c cs cut hc piece tail ih =>
    obtain ⟨hcut, htail⟩ := commentsClosed_append.mp hp
    rw [gaps_cons_append b hr hc (Cut.problem_eq_none hc hcut)]
    have hrest := ih (getLast?_drop_ne hr cut.more) htail hs
    simp only [piece] at hrest
    simp only [hrest]
    rfl

/-- Trivia in front of a line end goes on behind it, up to the next lexeme. -/
theorem gaps_append_end (b : Text) (hr : a.getLast? ≠ some '\r')
    (hp : CommentsClosed (gaps .leading offset a).reports)
    (hs : (gaps .leading offset a).rest = []) :
    gaps .leading offset (a ++ '\n' :: b)
      = let more := gaps .leading (offset + Text.width a + 1) b
        ⟨(gaps .leading offset a).value ++ .newline :: more.value, more.rest, more.reports⟩ := by
  -- The induction needs a variable for the side.
  generalize hside : Cut.Side.leading = side at *
  fun_induction gaps side offset a with
  | case1 offset =>
    subst hside
    rw [List.nil_append, gaps]
    rfl
  | case2 offset c cs hc => cases hs
  | case3 offset c cs cut hc piece tail ih =>
    obtain ⟨hcut, htail⟩ := commentsClosed_append.mp hp
    rw [gaps_cons_append b hr hc (Cut.problem_eq_none hc hcut)]
    have hrest := ih (getLast?_drop_ne hr cut.more) htail hs
    have hwidth : Text.width piece + Text.width (cs.drop cut.more) = Text.width (c :: cs) := by
      rw [← Text.width_append]
      simp [piece]
    simp only [piece] at hrest hwidth
    simp only [hrest]
    rw [← hwidth, ← Nat.add_assoc offset]
    rfl

/-- A lexeme in front of a line end is what it was. -/
theorem next_append (b : Text) (hr : a.getLast? ≠ some '\r')
    (hp : CommentsClosed (next offset a).reports) (hk : (next offset a).value.kind ≠ .eof) :
    next offset (a ++ '\n' :: b)
      = ⟨(next offset a).value, (next offset a).rest ++ '\n' :: b, (next offset a).reports⟩ := by
  have hfull := gaps_fullText .leading offset a
  cases hrest : (gaps .leading offset a).rest with
  | nil =>
    rw [next_of_end hrest] at hk
    exact absurd rfl hk
  | cons c cs =>
    unfold next at hp ⊢
    rw [hrest] at hfull
    simp only [hrest] at hp ⊢
    obtain ⟨hfront, htrail⟩ := commentsClosed_append.mp hp
    obtain ⟨hlead, -⟩ := commentsClosed_append.mp hfront
    have hrr : (c :: cs).getLast? ≠ some '\r' := by
      rw [← hfull, List.getLast?_append, List.getLast?_cons] at hr
      rwa [List.getLast?_cons]
    obtain ⟨hsame, hle⟩ := Cut.lexeme_append c cs b
    have hgaps := gaps_append b hr hlead (.inl (by simp [hrest]))
    rw [hrest] at hgaps
    have htrailing := gaps_append b (getLast?_drop_ne hrr (Cut.lexeme c cs).more) htrail (.inr rfl)
    simp only [hgaps, List.cons_append, hsame, List.take_append_of_le_length hle,
      List.drop_append_of_le_length hle, htrailing, reports_gaps hlead, reports_gaps htrail]

/-- At the end of a text the next lexeme is that of the text behind the line end. -/
theorem next_append_end (b : Text) (hr : a.getLast? ≠ some '\r')
    (hp : CommentsClosed (next offset a).reports) (hk : (next offset a).value.kind = .eof) :
    (next offset a).reports = [] ∧
      next offset (a ++ '\n' :: b)
        = let more := next (offset + Text.width a + 1) b
          ⟨more.value.lead ((next offset a).value.leading ++ [.newline]), more.rest,
            more.reports⟩ := by
  have hfull := gaps_fullText .leading offset a
  cases hrest : (gaps .leading offset a).rest with
  | cons c cs =>
    rw [(next_of_char hrest).2.1] at hk
    exact absurd hk (Cut.lexeme_kind c cs).2
  | nil =>
    rw [next_of_end hrest] at hp ⊢
    refine ⟨reports_gaps hp, ?_⟩
    rw [hrest, List.append_nil] at hfull
    have hgaps := gaps_append_end b hr hp hrest
    have hwidth (gs : List Gap) :
        Text.width (Gap.textOf ((gaps .leading offset a).value ++ .newline :: gs))
          = Text.width a + 1 + Text.width (Gap.textOf gs) := by
      rw [← congrArg Text.width hfull]
      simp [Gap.textOf, Gap.newline, Nat.add_assoc]
      decide
    unfold next
    simp only [hgaps, hwidth]
    cases hmore : (gaps .leading (offset + Text.width a + 1) b).rest with
    | nil => simp [Lexeme.lead]
    | cons c cs => simp [Lexeme.lead, Nat.add_assoc]

theorem next_width (offset : Nat) (a : Text) :
    (next offset a).value.fullWidth + Text.width (next offset a).rest = Text.width a := by
  rw [← Lexeme.width_fullText, ← Text.width_append, next_fullText]

theorem getLast?_next_rest (hr : a.getLast? ≠ some '\r') :
    (next offset a).rest.getLast? ≠ some '\r' := by
  intro h
  rw [← next_fullText offset a, List.getLast?_append, h] at hr
  exact hr rfl

end Scan

namespace Lexemes

/-- More trivia in front of the first lexeme. -/
def lead (gaps : List Gap) (ls : Lexemes) : Lexemes :=
  match ls.body with
  | [] => { ls with final := ls.final.lead gaps }
  | l :: rest => { ls with body := l.lead gaps :: rest }

/-- More trivia in front of a text is trivia in front of its first lexeme. -/
theorem scanFrom_lead {offset start : Nat} {text rest : Text} {gaps : List Gap}
    (h : Scan.next offset text
      = ⟨(Scan.next start rest).value.lead gaps, (Scan.next start rest).rest,
          (Scan.next start rest).reports⟩)
    (hwidth : offset + Text.width (Gap.textOf gaps) = start) :
    scanFrom offset text = (scanFrom start rest).lead gaps := by
  by_cases hk : (Scan.next start rest).value.kind = .eof
  · rw [scanFrom_of_eof (by rw [h]; exact hk), scanFrom_of_eof hk, h]
    rfl
  · rw [scanFrom_of_ne (by rw [h]; exact hk), scanFrom_of_ne hk, h]
    simp only [Lexeme.fullWidth_lead, ← Nat.add_assoc, hwidth]
    rfl

theorem scanFrom_append {offset : Nat} {a : Text} (b : Text) (hr : a.getLast? ≠ some '\r')
    (hp : CommentsClosed (scanFrom offset a).reports) :
    scanFrom offset (a ++ '\n' :: b)
      = let more := (scanFrom (offset + Text.width a + 1) b).lead
          ((scanFrom offset a).final.leading ++ [.newline])
        ⟨(scanFrom offset a).body ++ more.body, more.final,
          (scanFrom offset a).reports ++ more.reports⟩ := by
  fun_induction scanFrom offset a with
  | case1 offset a first h =>
    obtain ⟨hreports, hnext⟩ := Scan.next_append_end b hr hp h
    simp only [first, hreports, List.nil_append]
    refine scanFrom_lead hnext ?_
    obtain ⟨htext, htrailing, hrest⟩ := Scan.next_final h
    have hwidth := Scan.next_width offset a
    rw [hrest] at hwidth
    simp [Lexeme.fullWidth, Lexeme.leadingWidth, Lexeme.width, Lexeme.trailingWidth, htext,
      htrailing] at hwidth
    rw [← hwidth, Nat.add_assoc]
    simp [Gap.textOf, Gap.newline]
    rfl
  | case2 offset a first h hlt tail ih =>
    obtain ⟨hfirst, htail⟩ := commentsClosed_append.mp hp
    have hnext := Scan.next_append b hr hfirst h
    have hwidth := Scan.next_width offset a
    have hrest := ih (Scan.getLast?_next_rest hr) htail
    rw [scanFrom_of_ne (by rw [hnext]; exact h), hnext]
    simp only [first] at hrest ⊢
    rw [hrest, Nat.add_assoc offset, hwidth]
    simp [Nat.add_assoc, tail, first]

/-- The trivia in front of the first lexeme behind a text and a line end. -/
def gapsBehind (ls : Lexemes) : List Gap := ls.final.leading ++ [.newline]

theorem lead_shift (gaps : List Gap) (bytes : Nat) (ls : Lexemes) :
    (ls.shift bytes).lead gaps = (ls.lead gaps).shift bytes := by
  obtain ⟨body, final, reports⟩ := ls
  cases body <;> rfl

theorem reports_lead (gaps : List Gap) (ls : Lexemes) : (ls.lead gaps).reports = ls.reports := by
  obtain ⟨body, final, reports⟩ := ls
  cases body <;> rfl

theorem all_lead (gaps : List Gap) (ls : Lexemes) :
    (ls.lead gaps).all = ls.all.modifyHead (Lexeme.lead gaps) := by
  unfold lead all
  cases ls.body <;> rfl

/-- The lexemes of two texts with a line end between them. -/
theorem scan_append {a : Text} (b : Text) (hr : a.getLast? ≠ some '\r')
    (hp : CommentsClosed (scan a).reports) :
    scan (a ++ '\n' :: b)
      = let more := (scan b).lead (scan a).gapsBehind
        ⟨(scan a).body ++ more.body, more.final,
          (scan a).reports ++ (scan b).reports.map (·.shift (Text.width a + 1))⟩ := by
  have h := scanFrom_append b hr hp
  have hshift := scanFrom_shift 0 (Text.width a + 1) b
  rw [Nat.add_assoc, hshift, lead_shift] at h
  rw [← reports_lead (scan a).gapsBehind (scan b)]
  exact h

/-- The lexeme that ends a text owns nothing but the trivia in front of it. -/
theorem final_scanFrom (offset : Nat) (text : Text) :
    (scanFrom offset text).final.text = [] ∧ (scanFrom offset text).final.trailing = [] := by
  fun_induction scanFrom offset text with
  | case1 offset text first h =>
    obtain ⟨htext, htrailing, -⟩ := Scan.next_final h
    exact ⟨htext, htrailing⟩
  | case2 offset text first h hlt tail ih => exact ih

/-- All of a text is owned by the lexemes in front of the final one, or is trivia behind them. -/
theorem width_body (text : Text) :
    Lexeme.widthOf (scan text).body + Text.width (Gap.textOf (scan text).final.leading)
      = Text.width text := by
  obtain ⟨htext, htrailing⟩ := final_scanFrom 0 text
  have hwidth := congrArg Text.width (textOf_scan text)
  have hfinal : (scan text).final.fullText = Gap.textOf (scan text).final.leading := by
    simp [Lexeme.fullText, Gap.textOf, scan, htext, htrailing]
  rw [all, Lexeme.textOf, List.flatMap_append, Text.width_append] at hwidth
  rw [← Lexeme.width_textOf, ← hfinal, ← hwidth]
  simp [Lexeme.textOf]

/-- A text and the line end behind it are as wide as what the first lexeme behind them is moved. -/
theorem width_gapsBehind (text : Text) :
    Lexeme.widthOf (scan text).body + Text.width (Gap.textOf (scan text).gapsBehind)
      = Text.width text + 1 := by
  rw [← width_body text, gapsBehind, Nat.add_assoc]
  simp [Gap.textOf, Gap.newline]
  rfl

end Lexemes

/-! ## Places -/

namespace Lexeme

theorem located_shift (offset bytes : Nat) (ls : List Lexeme) :
    located (offset + bytes) ls = (located offset ls).map fun p => (p.1 + bytes, p.2) := by
  induction ls generalizing offset with
  | nil => rfl
  | cons l ls ih =>
    simp only [located, List.map_cons]
    rw [Nat.add_right_comm offset bytes, Nat.add_right_comm offset bytes, ih]

/-- A lexeme with more trivia in front of it stands that much further on. -/
theorem located_lead (offset : Nat) (gaps : List Gap) (ls : List Lexeme) :
    located offset (ls.modifyHead (lead gaps))
      = (located (offset + Text.width (Gap.textOf gaps)) ls).modifyHead
          fun p => (p.1, p.2.lead gaps) := by
  cases ls with
  | nil => rfl
  | cons l ls =>
    simp only [List.modifyHead, located, fullWidth_lead]
    simp [leadingWidth, lead, Gap.textOf, Nat.add_assoc]

end Lexeme

namespace Lexemes

/-- Behind a line end the lexemes of a text are what they are by themselves, moved. What ends the
text in front of it, and the line end, lead the first of them. -/
theorem scan_joined (s t : Text) (hc : CommentsClosed (scan s).reports)
    (hr : s.getLast? ≠ some '\r') :
    let moved := (Lexeme.located 0 (scan t).all).map fun p => (p.1 + (Text.width s + 1), p.2)
    let led := moved.modifyHead fun p => (p.1, p.2.lead ((scan s).final.leading ++ [.newline]))
    Lexeme.located 0 (scan (s ++ '\n' :: t)).all = Lexeme.located 0 (scan s).body ++ led
      ∧ (scan (s ++ '\n' :: t)).reports
        = (scan s).reports ++ (scan t).reports.map (·.shift (Text.width s + 1)) := by
  have hplace := Lexeme.located_shift 0 (Text.width s + 1) (scan t).all
  rw [← width_gapsBehind, ← Nat.add_assoc] at hplace
  have hall : (scan (s ++ '\n' :: t)).all
      = (scan s).body ++ (scan t).all.modifyHead (Lexeme.lead (scan s).gapsBehind) := by
    rw [scan_append t hr hc, ← all_lead]
    simp [all]
  refine ⟨?_, by rw [scan_append t hr hc]⟩
  rw [hall, Lexeme.located_append, Lexeme.located_lead, hplace, width_gapsBehind]
  rfl

/-- A string that its line end closes, with a backslash in front of it. -/
theorem scan_joined_string :
    let s : Text := ['\'', 'a', '\\']
    CommentsClosed (scan s).reports ∧ s.getLast? ≠ some '\r'
      ∧ (scan (s ++ '\n' :: ['\''])).reports = (scan s).reports
        ++ (scan ['\'']).reports.map (·.shift (Text.width s + 1)) := by
  intro s
  have hc : CommentsClosed (scan s).reports := by
    unfold CommentsClosed
    decide +kernel
  have hr : s.getLast? ≠ some '\r' := by decide
  exact ⟨hc, hr, (scan_joined s ['\''] hc hr).2⟩

end Lexemes

end Stylesheet
