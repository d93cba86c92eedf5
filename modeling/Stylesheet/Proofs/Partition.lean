import Stylesheet.Proofs.Lexicon

/-!
# Who owns which part of a text

The lexemes of a text and the trivia around them share the text out between them. Nothing is owned
twice and nothing is left over, and who owns a stretch of trivia follows from where the lines end:
what is behind a lexeme on its line is its own, and all that comes after belongs to the next one.

Each stretch of trivia is as long as it can be, which cannot be seen from its own text: it depends
on what stands in front of it and behind it (`Gap.Fits`).

Results:
* `Cut.trivia?_fits`: what is cut from a text as trivia is a stretch of its kind there.
* `Scan.next_placed`, `Lexemes.scanFrom_placed`: one lexeme, and all lexemes, with all they own.
* `Lexemes.scanExactly_past`: past the end there are only empty lexemes.
* `Lexemes.scan_partitions`: how the lexemes of a text share it out.
-/
namespace Stylesheet

open Lexicon (LineEnds)

/-! ## Stretches of trivia -/

namespace Gap

def closer : Text := ['*', '/']

/-- A text goes up to the first closer of a comment in it, and no further. -/
def ClosesFirst (text : Text) : Prop :=
  ∃ inner, text = inner ++ closer ∧ ¬ closer <:+: inner ++ ['*']

/-- The text of a gap is what its kind asks for, between what stands before it and behind it. -/
def Fits (before : Text) (gap : Gap) (behind : Text) : Prop :=
  match gap.kind with
  | .whitespace => (∀ c ∈ gap.text, isInlineBlank c) ∧ (∀ c ∈ before.getLast?, ¬ isInlineBlank c)
      ∧ ∀ c ∈ behind.head?, ¬ isInlineBlank c
  | .endOfLine => gap.text = ['\n'] ∨ gap.text = ['\r', '\n']
      ∨ gap.text = ['\r'] ∧ behind.head? ≠ some '\n'
  | .singleLineComment => (∃ body, gap.text = '/' :: '/' :: body ∧ ∀ c ∈ body, c ≠ '\r' ∧ c ≠ '\n')
      ∧ LineEnds behind
  | .multiLineComment => ∃ body, gap.text = '/' :: '*' :: body
      ∧ (ClosesFirst body ∨ ¬ closer <:+: body ∧ behind = [])

/-- Gaps one after the other, each of them fit for its place. -/
def Row (before : Text) : List Gap → Text → Prop
  | [], _ => True
  | gap :: gaps, behind =>
    gap.text ≠ [] ∧ gap.Fits before (textOf gaps ++ behind) ∧ Row (before ++ gap.text) gaps behind

end Gap

/-- No run of blanks goes on from one text into the next. -/
def Text.Apart (before behind : Text) : Prop :=
  ∀ c ∈ before.getLast?, ∀ d ∈ behind.head?, ¬ (isInlineBlank c ∧ isInlineBlank d)

theorem Text.apart_of_lineEnds {before behind : Text} (h : LineEnds behind) :
    Text.Apart before behind := by
  intro c _ d hd ⟨_, hblank⟩
  rcases h d hd with rfl | rfl <;> revert hblank <;> decide

theorem Text.apart_of_last {before behind : Text} (h : ∀ c ∈ before.getLast?, ¬ isInlineBlank c) :
    Text.Apart before behind :=
  fun c hc _ _ hblank => h c hc hblank.1

/-! ## Comments -/

theorem Gap.closer_infix_cons {c : Char} {cs : Text} (h : ∀ t, c = '*' → cs ≠ '/' :: t) :
    closer <:+: c :: cs ↔ closer <:+: cs := by
  refine List.infix_cons_iff.trans (or_iff_right ?_)
  rintro ⟨t, ht⟩
  obtain ⟨hc, hcs⟩ := List.cons.inj ht
  exact h t hc.symm hcs.symm

namespace Cut

/-- A comment goes up to its first closer, or to the end of its text. -/
theorem commentTail_spec (cs : Text) :
    (commentTail cs).2 = true ∧ Gap.ClosesFirst (cs.take (commentTail cs).1)
      ∨ (commentTail cs).2 = false ∧ ¬ Gap.closer <:+: cs ∧ (commentTail cs).1 = cs.length := by
  fun_induction commentTail cs with
  | case1 => exact .inr ⟨rfl, by decide, rfl⟩
  | case2 rest => exact .inl ⟨rfl, [], rfl, by decide⟩
  | case3 c cs hother more closed htail ih =>
    rw [htail] at ih
    refine ih.imp ?_ ?_
    · rintro ⟨hclosed, inner, htake, hfirst⟩
      refine ⟨hclosed, c :: inner, by rw [List.take_succ_cons, htake]; rfl, ?_⟩
      rw [List.cons_append, Gap.closer_infix_cons]
      · exact hfirst
      -- A slash behind the inner text would be one of the text that is cut.
      · intro t hc ht
        cases inner with
        | nil => cases ht
        | cons d ds =>
          obtain ⟨rfl, -⟩ := List.cons.inj ht
          cases cs with
          | nil => cases more <;> cases htake
          | cons e es =>
            cases more with
            | zero => cases htake
            | succ more => exact hother es hc (by rw [(List.cons.inj htake).1])
    · rintro ⟨hopen, hnone, hlength⟩
      refine ⟨hopen, ?_, congrArg Nat.succ hlength⟩
      rw [Gap.closer_infix_cons fun t hc ht => hother t hc ht]
      exact hnone

end Cut

/-! ## Cuts -/

namespace Cut

/-- What a test holds of in front of a text ends where the test fails. -/
theorem takeWhile_spec (p : Char → Bool) (cs : Text) :
    (∀ c ∈ cs.take (cs.takeWhile p).length, p c)
      ∧ ∀ c ∈ (cs.drop (cs.takeWhile p).length).head?, ¬ p c := by
  induction cs with
  | nil => simp
  | cons c cs ih =>
    by_cases hc : p c
    · rw [List.takeWhile_cons_of_pos hc, List.length_cons, List.take_succ_cons, List.drop_succ_cons]
      exact ⟨List.forall_mem_cons.mpr ⟨hc, ih.1⟩, ih.2⟩
    · simp [List.takeWhile_cons_of_neg hc, hc]

/-- What is cut from a text as trivia is a stretch of its kind there. -/
theorem trivia?_fits {side : Side} {c : Char} {cs : Text} {before : Text}
    (h : Text.Apart before (c :: cs)) {cut : Cut TriviaKind} :
    trivia? side c cs = some cut →
      Gap.Fits before ⟨cut.kind, c :: cs.take cut.more⟩ (cs.drop cut.more) := by
  fun_cases trivia? side c cs with
  | case1 cs =>
    rintro ⟨⟩
    obtain ⟨hbody, hend⟩ := takeWhile_spec (!isLineEnd ·) cs
    rw [Nat.add_comm 1, List.take_succ_cons, List.drop_succ_cons]
    refine ⟨⟨_, rfl, fun d hd => ?_⟩, fun d hd => ?_⟩
    · have := hbody d hd
      rw [← not_or, Lexicon.lineEnd_iff]
      simpa using this
    · have := hend d hd
      rw [Lexicon.lineEnd_iff]
      simpa using this
  | case2 cs more closed htail =>
    rintro ⟨⟩
    rw [Nat.add_comm 1, List.take_succ_cons, List.drop_succ_cons]
    refine ⟨_, rfl, ?_⟩
    have hspec := commentTail_spec cs
    rw [htail] at hspec
    refine hspec.imp And.right ?_
    rintro ⟨-, hnone, rfl : more = cs.length⟩
    rw [List.take_length, List.drop_length]
    exact ⟨hnone, rfl⟩
  | case3 cs =>
    rintro ⟨⟩
    exact .inr (.inl rfl)
  | case4 | case6 | case8 => rintro ⟨⟩
  | case5 c cs hslash hstar hreturn hline hside =>
    rintro ⟨⟩
    rcases Lexicon.lineEnd_iff.mpr hline with rfl | rfl
    · refine .inr (.inr ⟨rfl, fun hn => ?_⟩)
      obtain ⟨t, ht⟩ := List.head?_eq_some_iff.mp hn
      exact hreturn t rfl ht
    · exact .inl rfl
  | case7 c cs hslash hstar hreturn hline hblank =>
    rintro ⟨⟩
    obtain ⟨hbody, hend⟩ := takeWhile_spec isInlineBlank cs
    have hinline : isInlineBlank c := by simp [isInlineBlank, hblank, hline]
    refine ⟨List.forall_mem_cons.mpr ⟨hinline, hbody⟩, fun d hd hd' => ?_, hend⟩
    exact h d hd c rfl ⟨hd', hinline⟩

/-- A stretch of trivia behind a lexeme ends no line. -/
theorem trivia?_trailing {c : Char} {cs : Text} {cut : Cut TriviaKind} :
    trivia? .trailing c cs = some cut → cut.kind ≠ .endOfLine := by
  fun_cases trivia? .trailing c cs with
  | case3 | case5 => contradiction
  | case4 | case6 | case8 => rintro ⟨⟩
  | _ =>
    rintro ⟨⟩
    simp

/-- What stops the trivia behind a lexeme, and is trivia in front of the next one, ends a line. -/
theorem trivia?_leading {c : Char} {cs : Text} {cut : Cut TriviaKind}
    (h : trivia? .trailing c cs = none) :
    trivia? .leading c cs = some cut → cut.kind = .endOfLine := by
  fun_cases trivia? .leading c cs with
  | case3 | case5 => exact fun hc => by cases hc; rfl
  | case4 | case6 | case8 => rintro ⟨⟩
  | case1 | case2 => cases h
  | case7 c cs hslash hstar hreturn hline hblank =>
    rw [trivia?_other hslash hstar hreturn, if_neg hline, if_pos hblank] at h
    cases h

end Cut

/-! ## Rows of trivia -/

namespace Gap

theorem Fits.apart {before behind : Text} {gap : Gap} (h : gap.Fits before behind)
    (hne : gap.text ≠ []) : Text.Apart (before ++ gap.text) behind := by
  obtain ⟨kind, text⟩ := gap
  cases kind with
  | whitespace => exact fun c _ d hd hblank => h.2.2 d hd hblank.2
  | endOfLine =>
    refine Text.apart_of_last fun c hc => ?_
    obtain rfl | rfl | ⟨rfl, -⟩ : text = ['\n'] ∨ text = ['\r', '\n'] ∨ text = ['\r'] ∧ _ := h
    all_goals
      rw [List.getLast?_append] at hc
      cases hc
      decide
  | singleLineComment => exact Text.apart_of_lineEnds h.2
  | multiLineComment =>
    obtain ⟨body, htext, ⟨inner, rfl, -⟩ | ⟨-, rfl⟩⟩ := h
    · refine Text.apart_of_last fun c hc => ?_
      rw [htext, closer] at hc
      obtain rfl : '/' = c := by simpa [List.getLast?_append, List.getLast?_cons] using hc
      decide
    · exact fun _ _ _ hd => nomatch hd

theorem Row.apart {before behind : Text} {gaps : List Gap} (h : Row before gaps behind)
    (hb : Text.Apart before (textOf gaps ++ behind)) :
    Text.Apart (before ++ textOf gaps) behind := by
  induction gaps generalizing before with
  | nil => simpa [textOf] using hb
  | cons gap gaps ih =>
    obtain ⟨hne, hfits, hrow⟩ := h
    have := ih hrow (hfits.apart hne)
    simpa [textOf] using this

theorem Row.split {before behind : Text} {front back : List Gap} {gap : Gap}
    (h : Row before (front ++ gap :: back) behind) :
    gap.text ≠ [] ∧ gap.Fits (before ++ textOf front) (textOf back ++ behind) := by
  induction front generalizing before with
  | nil => simpa [textOf] using ⟨h.1, h.2.1⟩
  | cons other front ih => simpa [textOf] using ih h.2.2

/-- No two stretches of blanks follow one another. -/
theorem Row.apart_kinds {before behind : Text} {gaps : List Gap} (h : Row before gaps behind) :
    ¬ [.whitespace, .whitespace] <:+: gaps.map (·.kind) := by
  rintro ⟨_, _, heq⟩
  rw [List.append_assoc, eq_comm, List.map_eq_append_iff] at heq
  obtain ⟨front, rest, rfl, -, hrest⟩ := heq
  obtain ⟨gap, rest, rfl, hgap, hrest⟩ := List.map_eq_cons_iff.mp hrest
  obtain ⟨next, back, rfl, hnext, -⟩ := List.map_eq_cons_iff.mp hrest
  obtain ⟨-, hfits⟩ := h.split
  rw [List.append_cons] at h
  obtain ⟨hne, hblank⟩ := h.split
  rw [Fits, hgap] at hfits
  rw [Fits, hnext] at hblank
  obtain ⟨c, cs, htext⟩ := List.exists_cons_of_ne_nil hne
  exact hfits.2.2 c (by simp [textOf, htext]) (hblank.1 c (by simp [htext]))

end Gap

/-! ## Lexemes -/

namespace Lexicon

/-- The characters that ASCII prints are not blank. -/
theorem not_blank_between {a b c : Char} (ha : 33 ≤ a.toNat) (hb : b.toNat ≤ 126)
    (h : a ≤ c ∧ c ≤ b) : ¬ isInlineBlank c := by
  have hac : a.toNat ≤ c.toNat := h.1
  have hcb : c.toNat ≤ b.toNat := h.2
  intro hblank
  simp [isInlineBlank, isBlank, blankIntervals] at hblank
  omega

theorem Digit.not_blank {c : Char} (h : Digit c) : ¬ isInlineBlank c :=
  not_blank_between (by decide) (by decide) h

theorem Letter.not_blank {c : Char} (h : Letter c) : ¬ isInlineBlank c :=
  h.elim (not_blank_between (by decide) (by decide)) (not_blank_between (by decide) (by decide))

theorem Number.not_blank {word : Text} (h : Number word) : ∀ c ∈ word, ¬ isInlineBlank c := by
  obtain ⟨sign, whole, fraction, rfl, hsign, ⟨-, hwhole⟩, hfraction⟩ := h
  intro c hc
  rcases List.mem_append.mp hc with hc | hc
  · obtain rfl | rfl := hsign
    · cases hc
    · obtain rfl := List.mem_singleton.mp hc
      decide
  rcases List.mem_append.mp hc with hc | hc
  · exact (hwhole c hc).not_blank
  · obtain rfl | ⟨digits, rfl, -, hdigits⟩ := hfraction
    · cases hc
    · rcases List.mem_cons.mp hc with rfl | hc
      · decide
      · exact (hdigits c hc).not_blank

theorem Name.not_blank {word : Text} (h : Name word) : ∀ c ∈ word, ¬ isInlineBlank c := by
  obtain ⟨d, ds, rfl, hd, hds⟩ := h
  intro c hc
  rcases List.mem_cons.mp hc with rfl | hc
  · rcases hd with hd | rfl
    · exact hd.not_blank
    · decide
  · rcases hds c hc with hd | hd | rfl | rfl
    · exact hd.not_blank
    · exact hd.not_blank
    · decide
    · decide

/-- A lexeme ends with a character that is not blank, or where its line ends. -/
theorem Matches.ends {kind : Kind} {word rest : Text} (h : Matches kind word rest) :
    (∀ c ∈ word.getLast?, ¬ isInlineBlank c) ∨ LineEnds rest := by
  cases h with
  | mark h =>
    -- A search of the table: a `∀` over its characters may get decided through all of `Char`.
    have hmarks : marks.all fun p => p.1.getLast?.all (!isInlineBlank ·) := by decide
    exact .inl fun c hc => by simpa [Option.mem_def.mp hc] using List.all_eq_true.mp hmarks _ h
  | number h => exact .inl fun c hc => h.not_blank c (List.mem_of_getLast? hc)
  | keyword h | identifier h => exact .inl fun c hc => h.not_blank c (List.mem_of_getLast? hc)
  | @string quote _ _ hq hb =>
    refine .inl fun c hc => ?_
    obtain rfl : quote = c := by simpa [List.getLast?_cons, List.getLast?_append] using hc
    rcases hq with rfl | rfl <;> decide
  | unclosed _ _ h => exact .inr h
  | dangling _ _ h => exact .inr h

theorem Munch.ne_nil {kind : Kind} {word rest : Text} (h : Munch kind word rest) : word ≠ [] := by
  cases h with
  | longest h => exact List.length_pos_iff.mp h.length_pos
  | unknown => exact List.cons_ne_nil _ _

/-- No run of blanks goes on from a lexeme into what is behind it. -/
theorem Munch.apart {kind : Kind} {word rest : Text} (h : Munch kind word rest)
    (hp : Plain (word ++ rest)) (before : Text) : Text.Apart (before ++ word) rest := by
  have hlast : (∀ c ∈ word.getLast?, ¬ isInlineBlank c) ∨ LineEnds rest := by
    cases h with
    | longest h => exact h.ends
    | @unknown c rest h =>
      refine .inl fun d hd hblank => hp.1 c rfl ?_
      obtain rfl : c = d := by simpa using hd
      exact (Bool.and_eq_true_iff.mp hblank).1
  rcases hlast with hlast | hend
  · refine Text.apart_of_last ?_
    rw [List.getLast?_eq_some_getLast h.ne_nil] at hlast
    rwa [List.getLast?_append, List.getLast?_eq_some_getLast h.ne_nil, Option.some_or]
  · exact Text.apart_of_lineEnds hend

end Lexicon

namespace Lexeme

/-- What a lexeme owns is what its place in a text asks for. -/
structure Placed (before : Text) (l : Lexeme) (behind : Text) : Prop where
  leading : Gap.Row before l.leading (l.text ++ (Gap.textOf l.trailing ++ behind))
  trailing : Gap.Row (before ++ (Gap.textOf l.leading ++ l.text)) l.trailing behind
  /-- The trivia behind a lexeme stops at the line's end. -/
  stays : ∀ gap ∈ l.trailing, gap.kind ≠ .endOfLine

end Lexeme

namespace Scan

theorem gaps_row (side : Cut.Side) (offset : Nat) (text : Text) : ∀ {before : Text},
    Text.Apart before text →
      Gap.Row before (gaps side offset text).value (gaps side offset text).rest := by
  fun_induction gaps side offset text
  case case1 => exact fun _ => trivial
  case case2 => exact fun _ => trivial
  case case3 offset c cs cut hcut piece tail ih =>
    intro before hb
    have hfits := Cut.trivia?_fits hb hcut
    have hne : piece ≠ [] := List.cons_ne_nil _ _
    refine ⟨hne, ?_, ih (hfits.apart hne)⟩
    rw [gaps_fullText]
    exact hfits

theorem kind_of_mem_trailing (offset : Nat) (text : Text) :
    ∀ gap ∈ (gaps .trailing offset text).value, gap.kind ≠ .endOfLine := by
  -- The induction needs a variable for the side.
  generalize hside : Cut.Side.trailing = side
  fun_induction gaps side offset text with
  | case1 | case2 => exact List.forall_mem_nil _
  | case3 offset c cs cut hcut piece tail ih =>
    subst hside
    exact List.forall_mem_cons.mpr ⟨Cut.trivia?_trailing hcut, fun gap hgap => ih gap hgap⟩

/-- One lexeme and what it owns. -/
theorem next_placed (offset : Nat) {before text : Text} (hb : Text.Apart before text) :
    (next offset text).value.Placed before (next offset text).rest
      ∧ Text.Apart (before ++ (next offset text).value.fullText) (next offset text).rest := by
  have hwhole := gaps_fullText .leading offset text
  have hlead := gaps_row .leading offset text hb
  cases hrest : (gaps .leading offset text).rest with
  | nil =>
    rw [hrest] at hlead
    simp only [next_of_end hrest]
    exact ⟨⟨hlead, trivial, nofun⟩, fun _ _ _ hd => nomatch hd⟩
  | cons c cs =>
    have hplain := Lexicon.plain_of_trivia (trivia?_of_rest hrest)
    have hcut : c :: cs.take (Cut.lexeme c cs).more ++ cs.drop (Cut.lexeme c cs).more = c :: cs := by
      simp
    have hapart := (Cut.lexeme_munch c cs).apart (by rwa [hcut])
      (before ++ Gap.textOf (gaps .leading offset text).value)
    unfold next
    simp only [hrest]
    have htrail (offset : Nat) := gaps_row .trailing offset _ hapart
    refine ⟨⟨?_, ?_, kind_of_mem_trailing _ _⟩, ?_⟩
    · rw [gaps_fullText]
      rw [hcut, ← hrest]
      exact hlead
    · rw [← List.append_assoc]
      exact htrail _
    · have hbehind (offset : Nat) := (htrail offset).apart (by rwa [gaps_fullText])
      simpa [Lexeme.fullText] using hbehind _

/-- Nothing behind a lexeme on its line is left. -/
def Stopped (text : Text) : Prop := ∀ c cs, text = c :: cs → Cut.trivia? .trailing c cs = none

theorem next_stopped (offset : Nat) (text : Text) : Stopped (next offset text).rest := by
  cases hrest : (gaps .leading offset text).rest with
  | nil =>
    rw [next_of_end hrest]
    exact fun _ _ h => nomatch h
  | cons c cs =>
    intro d ds h
    unfold next at h
    simp only [hrest] at h
    exact trivia?_of_rest h

/-- Trivia that was left for the next lexeme starts with a line end. -/
theorem next_leading {offset : Nat} {text : Text} (h : Stopped text) :
    ∀ gap ∈ (next offset text).value.leading.head?, gap.kind = .endOfLine := by
  have hleading : (next offset text).value.leading = (gaps .leading offset text).value := by
    cases hrest : (gaps .leading offset text).rest with
    | nil => rw [next_of_end hrest]
    | cons c cs => exact (next_of_char hrest).1
  rw [hleading]
  cases text with
  | nil => simp [gaps]
  | cons c cs =>
    rw [gaps]
    cases hcut : Cut.trivia? .leading c cs with
    | none => simp
    | some cut =>
      rintro gap ⟨⟩
      exact Cut.trivia?_leading (h c cs rfl) hcut

end Scan

/-! ## Whole texts -/

namespace Lexeme

/-- Lexemes one after the other, each with what its place asks for. -/
def AllPlaced (before : Text) : List Lexeme → Prop
  | [] => True
  | l :: ls => l.Placed before (textOf ls) ∧ AllPlaced (before ++ l.fullText) ls

theorem AllPlaced.split {before : Text} {front back : List Lexeme} {l : Lexeme}
    (h : AllPlaced before (front ++ l :: back)) :
    l.Placed (before ++ textOf front) (textOf back) := by
  induction front generalizing before with
  | nil => simpa [textOf] using h.1
  | cons other front ih => simpa [textOf] using ih h.2

/-- The empty lexeme that stands behind all others. -/
def past : Lexeme := ⟨[], .eof, [], []⟩

end Lexeme

namespace Lexemes

theorem scanFrom_placed (offset : Nat) (text : Text) : ∀ {before : Text},
    Text.Apart before text → Lexeme.AllPlaced before (scanFrom offset text).all := by
  fun_induction scanFrom offset text
  case case1 offset text first h =>
    intro before hb
    have hfirst := (Scan.next_placed offset hb).1
    rw [(Scan.next_final h).2.2] at hfirst
    exact ⟨hfirst, trivial⟩
  case case2 offset text first h hlt tail ih =>
    intro before hb
    obtain ⟨hfirst, hbehind⟩ := Scan.next_placed offset hb
    refine ⟨?_, ih hbehind⟩
    rwa [← textOf_scanFrom (offset + first.value.fullWidth) first.rest] at hfirst

theorem scanFrom_leading (offset : Nat) (text : Text) : Scan.Stopped text →
    ∀ l ∈ (scanFrom offset text).all, ∀ gap ∈ l.leading.head?, gap.kind = .endOfLine := by
  fun_induction scanFrom offset text with
  | case1 offset text first h =>
    intro hstop l hl
    obtain rfl := List.mem_singleton.mp hl
    exact Scan.next_leading hstop
  | case2 offset text first h hlt tail ih =>
    intro hstop
    exact List.forall_mem_cons.mpr ⟨Scan.next_leading hstop, ih (Scan.next_stopped offset text)⟩

theorem scanExactly_nil (n offset : Nat) :
    scanExactly n offset [] = (List.replicate n .past, []) := by
  have hnext (offset : Nat) : Scan.next offset [] = ⟨.past, [], []⟩ := by
    simp [Scan.next, Scan.gaps, Lexeme.past]
  induction n generalizing offset with
  | zero => rfl
  | succ n ih => simp [scanExactly, hnext, ih, List.replicate_succ]

/-- Past the end there are only empty lexemes, and nothing to report. -/
theorem scanExactly_past (n offset : Nat) (text : Text) :
    scanExactly ((scanFrom offset text).all.length + n) offset text
      = ((scanFrom offset text).all ++ List.replicate n .past, (scanFrom offset text).reports) := by
  fun_induction scanFrom offset text with
  | case1 offset text first h =>
    have hrest : first.rest = [] := (Scan.next_final h).2.2
    rw [show (all ⟨[], first.value, first.reports⟩).length + n = n + 1 from Nat.add_comm 1 n]
    simp only [scanExactly]
    rw [show (Scan.next offset text).rest = [] from hrest, scanExactly_nil]
    simp [all, first]
  | case2 offset text first h hlt tail ih =>
    rw [show (all ⟨first.value :: tail.body, tail.final, first.reports ++ tail.reports⟩).length + n
      = tail.all.length + n + 1 by simp [all]; omega]
    simp only [scanExactly]
    rw [ih]
    rfl

end Lexemes

/-! ## Places -/

namespace Gap

/-- Each gap with the offset at which it starts, the first one at `offset`. -/
def located (offset : Nat) : List Gap → List (Nat × Gap)
  | [] => []
  | gap :: gaps => (offset, gap) :: located (offset + gap.width) gaps

theorem mem_located {offset start : Nat} {gaps : List Gap} {gap : Gap}
    (h : (start, gap) ∈ located offset gaps) :
    ∃ front back, gaps = front ++ gap :: back ∧ start = offset + Text.width (textOf front) := by
  induction gaps generalizing offset with
  | nil => simp [located] at h
  | cons first gaps ih =>
    rcases List.mem_cons.mp h with h | h
    · obtain ⟨rfl, rfl⟩ := Prod.mk.inj h
      exact ⟨[], gaps, rfl, rfl⟩
    · obtain ⟨front, back, rfl, rfl⟩ := ih h
      exact ⟨first :: front, back, rfl, by simp [textOf, width, Nat.add_assoc]⟩

end Gap

namespace Lexeme

/-- The trivia around a lexeme, and the offset at which each stretch of it starts. -/
def gapsAt (p : Nat × Lexeme) : List (Nat × Gap) :=
  Gap.located (p.1 - p.2.leadingWidth) p.2.leading
    ++ Gap.located (p.1 + p.2.width) p.2.trailing

/-- What each lexeme owns starts where the one before it ends, from `first` on up to `last`. -/
def Tiles (first : Nat) : List (Nat × Lexeme) → Nat → Prop
  | [], last => first = last
  | (start, l) :: ls, last =>
    first + l.leadingWidth = start ∧ Tiles (start + l.width + l.trailingWidth) ls last

theorem tiles_located (offset : Nat) (ls : List Lexeme) :
    Tiles offset (located offset ls) (offset + widthOf ls) := by
  induction ls generalizing offset with
  | nil => rfl
  | cons l ls ih =>
    have htail := ih (offset + l.fullWidth)
    refine ⟨rfl, ?_⟩
    simpa [fullWidth, widthOf, Nat.add_assoc] using htail

theorem mem_located {offset start : Nat} {ls : List Lexeme} {l : Lexeme}
    (h : (start, l) ∈ located offset ls) :
    ∃ front back, ls = front ++ l :: back
      ∧ start = offset + Text.width (textOf front ++ Gap.textOf l.leading) := by
  induction ls generalizing offset with
  | nil => simp [located] at h
  | cons first ls ih =>
    rcases List.mem_cons.mp h with h | h
    · obtain ⟨rfl, rfl⟩ := Prod.mk.inj h
      exact ⟨[], ls, rfl, by simp [textOf, leadingWidth]⟩
    · obtain ⟨front, back, rfl, rfl⟩ := ih h
      refine ⟨first :: front, back, rfl, ?_⟩
      simp [textOf, width_fullText, Nat.add_assoc]

end Lexeme

/-- A piece stands at an offset of a text, and both its ends fall between characters. -/
def Text.HoldsAt (text : Text) (start : Nat) (piece : Text) : Prop :=
  text.isBoundary start ∧ text.isBoundary (start + width piece)
    ∧ Text.slice? text (Span.ofWidth start (width piece)) = some piece

theorem Text.holdsAt_append (before piece behind : Text) :
    (before ++ piece ++ behind).HoldsAt (width before) piece := by
  refine ⟨?_, ?_, slice?_append before piece behind⟩
  · rw [List.append_assoc]
    exact isBoundary_width_append before (piece ++ behind)
  · rw [← width_append]
    exact isBoundary_width_append (before ++ piece) behind

/-- A stretch of trivia stands at an offset of a text, and is what its kind asks for there. -/
def Gap.StandsAt (text : Text) (start : Nat) (gap : Gap) : Prop :=
  gap.text ≠ [] ∧ text.HoldsAt start gap.text
    ∧ ∃ before behind, text.take? start = some before
      ∧ text.drop? (start + gap.width) = some behind ∧ gap.Fits before behind

theorem Gap.Row.standsAt {before behind : Text} {gaps : List Gap} (h : Row before gaps behind)
    {start : Nat} {gap : Gap} (hmem : (start, gap) ∈ located (Text.width before) gaps) :
    gap.StandsAt (before ++ textOf gaps ++ behind) start := by
  obtain ⟨front, back, rfl, rfl⟩ := mem_located hmem
  obtain ⟨hne, hfits⟩ := h.split
  have htext : before ++ textOf (front ++ gap :: back) ++ behind
      = before ++ textOf front ++ gap.text ++ (textOf back ++ behind) := by
    simp [textOf]
  rw [htext, ← Text.width_append]
  refine ⟨hne, Text.holdsAt_append .., _, _, ?_, ?_, hfits⟩
  · rw [List.append_assoc, Text.take?_width_append]
  · rw [Gap.width, ← Text.width_append, Text.drop?_width_append]

namespace Lexemes

/-- How the lexemes of a text share it out. -/
structure Partitions (text : Text) (ls : Lexemes) : Prop where
  body : ∀ l ∈ ls.body, l.kind ≠ .eof ∧ l.text ≠ []
  final : ls.final.kind = .eof ∧ ls.final.text = [] ∧ ls.final.trailing = []
  tiles : Lexeme.Tiles 0 (Lexeme.located 0 ls.all) (Text.width text)
  texts : ∀ p ∈ Lexeme.located 0 ls.all, text.HoldsAt p.1 p.2.text
  gaps : ∀ p ∈ Lexeme.located 0 ls.all, ∀ q ∈ Lexeme.gapsAt p, q.2.StandsAt text q.1
  /-- Trivia behind a lexeme stays on its line, and trivia in front of one starts on a new line. -/
  trailing : ∀ l ∈ ls.all, ∀ gap ∈ l.trailing, gap.kind ≠ .endOfLine
  leading : ∀ l ∈ ls.all.tail, ∀ gap ∈ l.leading.head?, gap.kind = .endOfLine
  apart : ∀ l ∈ ls.all, ∀ gaps ∈ [l.leading, l.trailing],
    ¬ [.whitespace, .whitespace] <:+: gaps.map (·.kind)
  /-- However many more lexemes are asked for, they are empty and stand at the end. -/
  past : ∀ n, scanExactly (ls.all.length + n) 0 text
      = (ls.all ++ List.replicate n .past, ls.reports)
    ∧ Lexeme.located 0 (ls.all ++ List.replicate n .past)
      = Lexeme.located 0 ls.all ++ List.replicate n (Text.width text, .past)

theorem widthOf_scan (text : Text) : Lexeme.widthOf (scan text).all = Text.width text := by
  rw [← Lexeme.width_textOf, textOf_scan]

theorem located_past (offset n : Nat) :
    Lexeme.located offset (List.replicate n .past) = List.replicate n (offset, .past) := by
  induction n with
  | zero => rfl
  | succ n ih =>
    have hpast : Lexeme.past.leadingWidth = 0 ∧ Lexeme.past.fullWidth = 0 := ⟨rfl, rfl⟩
    simp [List.replicate_succ, Lexeme.located, hpast, ih]

theorem leading_scan (text : Text) :
    ∀ l ∈ (scan text).all.tail, ∀ gap ∈ l.leading.head?, gap.kind = .endOfLine := by
  by_cases h : (Scan.next 0 text).value.kind = .eof
  · rw [scan, scanFrom_of_eof h]
    exact List.forall_mem_nil _
  · rw [scan, scanFrom_of_ne h]
    exact scanFrom_leading _ _ (Scan.next_stopped 0 text)

theorem text_ne_nil_scanFrom (offset : Nat) (text : Text) :
    ∀ l ∈ (scanFrom offset text).body, l.text ≠ [] := by
  fun_induction scanFrom offset text with
  | case1 => exact List.forall_mem_nil _
  | case2 offset text first h hlt tail ih =>
    obtain ⟨rest, -, -, hmunch⟩ := Scan.next_munches offset text h
    exact List.forall_mem_cons.mpr ⟨hmunch.ne_nil, ih⟩

section

variable {text : Text} {front back : List Lexeme} {l : Lexeme}
  (h : (scan text).all = front ++ l :: back)

include h

theorem text_split :
    text = Lexeme.textOf front ++ Gap.textOf l.leading ++ l.text
      ++ (Gap.textOf l.trailing ++ Lexeme.textOf back) := by
  conv => lhs; rw [← textOf_scan text, h]
  simp [Lexeme.textOf, Lexeme.fullText]

theorem placed_of_split : l.Placed (Lexeme.textOf front) (Lexeme.textOf back) := by
  have hnone : Text.Apart [] text := nofun
  have hplaced := scanFrom_placed 0 text hnone
  rw [show (scanFrom 0 text).all = front ++ l :: back from h] at hplaced
  exact hplaced.split

/-- The trivia around a lexeme stands where the lexeme's place says. -/
theorem standsAt_of_split :
    ∀ q ∈ Lexeme.gapsAt (Text.width (Lexeme.textOf front ++ Gap.textOf l.leading), l),
      q.2.StandsAt text q.1 := by
  have hplaced := placed_of_split h
  rintro ⟨start, gap⟩ hq
  rw [text_split h]
  rcases List.mem_append.mp hq with hq | hq
  · rw [Text.width_append, Lexeme.leadingWidth, Nat.add_sub_cancel] at hq
    simpa using hplaced.leading.standsAt hq
  · rw [Lexeme.width, ← Text.width_append, List.append_assoc] at hq
    simpa using hplaced.trailing.standsAt hq

end

/-- The lexemes of a text share it out between them. -/
theorem scan_partitions (text : Text) : (scan text).Partitions text where
  body := fun l hl => ⟨(kind_of_mem_body hl).2, text_ne_nil_scanFrom 0 text l hl⟩
  final := ⟨kind_final text, final_scanFrom 0 text⟩
  tiles := by
    have htiles := Lexeme.tiles_located 0 (scan text).all
    rwa [Nat.zero_add, widthOf_scan] at htiles
  texts := by
    rintro ⟨start, l⟩ hl
    obtain ⟨front, back, h, rfl⟩ := Lexeme.mem_located hl
    rw [Nat.zero_add, text_split h]
    exact Text.holdsAt_append ..
  gaps := by
    rintro ⟨start, l⟩ hl
    obtain ⟨front, back, h, rfl⟩ := Lexeme.mem_located hl
    rw [Nat.zero_add]
    exact standsAt_of_split h
  trailing := fun l hl => by
    obtain ⟨front, back, h⟩ := List.append_of_mem hl
    exact (placed_of_split h).stays
  leading := leading_scan text
  apart := fun l hl gaps hgaps => by
    obtain ⟨front, back, h⟩ := List.append_of_mem hl
    have hplaced := placed_of_split h
    rcases List.mem_cons.mp hgaps with rfl | hgaps
    · exact hplaced.leading.apart_kinds
    · obtain rfl := List.mem_singleton.mp hgaps
      exact hplaced.trailing.apart_kinds
  past := fun n => by
    refine ⟨scanExactly_past n 0 text, ?_⟩
    rw [Lexeme.located_append, Nat.zero_add, widthOf_scan, located_past]

end Lexemes

end Stylesheet
