import Stylesheet.Proofs.Partition

/-!
# Scanning the front of a text

A scan looks at what stands behind a lexeme only to see where the lexeme ends. So a text that is cut
between two lexemes is scanned as it was up to the cut: what was found in front of it is found
again, and the trivia in front of the next lexeme is now in front of the end.

Results:
* `Cut.trivia?_front`, `Cut.lexeme_front`: a cut that goes no further than a text is the cut of that
  text.
* `Scan.gaps_front`, `Scan.next_front`: the same for trivia and for a lexeme with all it owns.
* `Lexemes.scan_front`: the lexemes of a text that is cut in front of one of its lexemes.
-/
namespace Stylesheet

/-! ## Cuts -/

namespace Cut

variable {cs behind : Text} {c : Char}

theorem takeWhile_front {p : Char → Bool} (h : ((cs ++ behind).takeWhile p).length ≤ cs.length) :
    cs.takeWhile p = (cs ++ behind).takeWhile p := by
  rw [List.takeWhile_append] at h ⊢
  split at h
  · next hall =>
    rw [List.length_append] at h
    have hnil : behind.takeWhile p = [] := List.length_eq_zero_iff.mp (by omega)
    rw [if_pos hall, hnil, List.append_nil]
    exact (List.takeWhile_prefix p).eq_of_length hall
  · next hsome => rw [if_neg hsome]

theorem commentTail_front (h : (commentTail (cs ++ behind)).1 ≤ cs.length) :
    commentTail cs = commentTail (cs ++ behind) := by
  rcases commentTail_spec cs with ⟨hclosed, -⟩ | ⟨-, hopen, -⟩
  · exact (commentTail_append hclosed behind).1.symm
  · rcases commentTail_spec (cs ++ behind) with ⟨-, inner, htake, -⟩ | ⟨-, -, hlength⟩
    · rw [List.take_append_of_le_length h] at htake
      have hwithin : Gap.closer <:+: cs.take (commentTail (cs ++ behind)).1 :=
        htake ▸ (List.suffix_append inner Gap.closer).isInfix
      exact absurd (hwithin.trans (List.take_prefix ..).isInfix) hopen
    · rw [hlength, List.length_append] at h
      have hnil : behind = [] := List.length_eq_zero_iff.mp (by omega)
      rw [hnil, List.append_nil]

/-- Without a digit the rest of a number is a fraction, or nothing. -/
theorem numberTail_period (cs : Text) :
    numberTail ('.' :: cs)
      = if (cs.takeWhile Char.isDigit).length = 0 then 0
        else (cs.takeWhile Char.isDigit).length + 1 := by
  cases cs with
  | nil => rfl
  | cons d ds =>
    cases hd : d.isDigit with
    | false => simp [numberTail, hd]
    | true =>
      simp [numberTail, hd]
      omega

theorem numberTail_other {d : Char} (hd : d.isDigit = false) (hp : d ≠ '.') (cs : Text) :
    numberTail (d :: cs) = 0 := by
  simp [numberTail, hd, hp]

theorem numberTail_front (h : numberTail (cs ++ behind) ≤ cs.length) :
    numberTail cs = numberTail (cs ++ behind) := by
  induction cs with
  | nil => exact (Nat.le_zero.mp h).symm
  | cons d ds ih =>
    rw [List.cons_append] at h ⊢
    cases hd : d.isDigit with
    | true =>
      rw [Lexicon.numberTail_cons hd] at h ⊢
      rw [Lexicon.numberTail_cons hd, ih (Nat.le_of_succ_le_succ h)]
    | false =>
      by_cases hp : d = '.'
      · subst hp
        rw [numberTail_period, List.length_cons] at h
        have hle : ((ds ++ behind).takeWhile Char.isDigit).length ≤ ds.length := by
          split at h <;> omega
        rw [numberTail_period, numberTail_period, takeWhile_front hle]
      · rw [numberTail_other hd hp, numberTail_other hd hp]

/-- A string that takes nothing is where its line ends. -/
theorem stringTail_zero {quote : Char} {text : Text} (h : (stringTail quote text).1 = 0) :
    stringTail quote text = (0, false) := by
  fun_cases stringTail quote text
  all_goals simp_all [stringTail]

theorem stringTail_front {quote : Char} (h : (stringTail quote (cs ++ behind)).1 ≤ cs.length) :
    stringTail quote cs = stringTail quote (cs ++ behind) := by
  fun_induction stringTail quote cs with
  | case1 => exact (stringTail_zero (Nat.le_zero.mp h)).symm
  | case2 =>
    cases behind with
    | nil => rfl
    | cons d ds =>
      rw [List.cons_append, List.nil_append, stringTail] at h ⊢
      split
      · rfl
      · next hd => simp [if_neg hd] at h
  | case3 c cs hc => rw [List.cons_append, List.cons_append, stringTail, if_pos hc]
  | case4 c cs hc n closed hx ih =>
    rw [List.cons_append, List.cons_append, stringTail, if_neg hc] at h ⊢
    rw [hx] at ih
    have hrest := ih (by simp at h; omega)
    rw [← hrest]
  | case5 c cs hnil hcons hc =>
    rw [List.cons_append, stringTail_other (ne_backslash hnil hcons), if_pos hc]
  | case6 cs hnil hcons hc =>
    rw [List.cons_append, stringTail_other (ne_backslash hnil hcons), if_neg hc, if_pos rfl]
  | case7 c cs hnil hcons hc hq n closed hx ih =>
    rw [List.cons_append, stringTail_other (ne_backslash hnil hcons), if_neg hc, if_neg hq] at h ⊢
    rw [hx] at ih
    have hrest := ih (by simp at h; omega)
    rw [← hrest]

/-- What could follow is no part of the lexeme, if the lexeme is its first character. -/
theorem lexeme_alone (hm : c ∈ ['<', '>', '-']) (h : (lexeme c cs).more = 0) :
    lexeme c [] = lexeme c cs := by
  simp only [List.mem_cons, List.not_mem_nil, or_false] at hm
  rcases hm with rfl | rfl | rfl
  · unfold lexeme at h ⊢
    split at h <;> simp_all
  · unfold lexeme at h ⊢
    split at h <;> simp_all
  · cases cs with
    | nil => rfl
    | cons d ds =>
      cases hd : d.isDigit with
      | false => simp [lexeme, hd]
      | true => simp [lexeme, hd, Lexicon.numberTail_cons] at h

/-- A lexeme that does not go on behind a text is the one at the front of that text. -/
theorem lexeme_front (h : (lexeme c (cs ++ behind)).more ≤ cs.length) :
    lexeme c cs = lexeme c (cs ++ behind) := by
  by_cases hs : c ∈ singles
  · exact (lexeme_single hs cs (cs ++ behind)).1
  by_cases hm : c ∈ ['<', '>', '-']
  · cases cs with
    | nil => exact lexeme_alone hm (Nat.le_zero.mp h)
    | cons d ds =>
      simp only [List.mem_cons, List.not_mem_nil, or_false] at hm
      rcases hm with rfl | rfl | rfl
      · exact (lexeme_lessThan d ds (ds ++ behind)).1
      · exact (lexeme_greaterThan d ds (ds ++ behind)).1
      · simp only [List.cons_append, lexeme] at h ⊢
        split
        · next hd =>
          rw [if_pos hd] at h
          rw [← List.cons_append, numberTail_front h]
        · rfl
  · rw [lexeme_other hs hm] at h ⊢
    rw [lexeme_other hs hm]
    split
    · next hd =>
      rw [if_pos hd] at h
      rw [numberTail_front h]
    next hd =>
    rw [if_neg hd] at h
    split
    · next hw =>
      rw [if_pos hw] at h
      rw [takeWhile_front h]
    next hw =>
    rw [if_neg hw] at h
    split
    · next hq =>
      rw [if_pos hq] at h
      rw [stringTail_front h]
    · rfl

/-- A text that is not empty starts as it does with more behind it. -/
theorem exists_front {d : Char} {t : Text} (h : cs ++ behind = d :: t) (hpos : 0 < cs.length) :
    ∃ rest, cs = d :: rest ∧ t = rest ++ behind := by
  cases cs with
  | nil => exact absurd hpos (Nat.lt_irrefl 0)
  | cons x xs =>
    obtain ⟨rfl, rfl⟩ := List.cons.inj h
    exact ⟨xs, rfl, rfl⟩

/-- Trivia that does not go on behind a text is the trivia at the front of that text. -/
theorem trivia?_front {side : Side}
    (h : ∀ cut, trivia? side c (cs ++ behind) = some cut → cut.more ≤ cs.length) :
    trivia? side c cs = trivia? side c (cs ++ behind) := by
  by_cases hl : c = '/' ∧ ∃ t, cs ++ behind = '/' :: t
  · obtain ⟨rfl, t, ht⟩ := hl
    rw [ht] at h ⊢
    have hle : 1 + (t.takeWhile (!isLineEnd ·)).length ≤ cs.length := h _ rfl
    obtain ⟨rest, rfl, rfl⟩ := exists_front ht (by omega)
    rw [List.length_cons] at hle
    have hbody : ((rest ++ behind).takeWhile (!isLineEnd ·)).length ≤ rest.length := by omega
    simp only [trivia?, takeWhile_front hbody]
  by_cases hm : c = '/' ∧ ∃ t, cs ++ behind = '*' :: t
  · obtain ⟨rfl, t, ht⟩ := hm
    rw [ht] at h ⊢
    have hle : 1 + (commentTail t).1 ≤ cs.length := h _ rfl
    obtain ⟨rest, rfl, rfl⟩ := exists_front ht (by omega)
    rw [List.length_cons] at hle
    have hbody : (commentTail (rest ++ behind)).1 ≤ rest.length := by omega
    simp only [trivia?, commentTail_front hbody]
  by_cases hn : c = '\r' ∧ ∃ t, cs ++ behind = '\n' :: t
  · obtain ⟨rfl, t, ht⟩ := hn
    cases cs with
    | nil =>
      rw [List.nil_append] at ht
      rw [List.nil_append, ht] at h ⊢
      cases side with
      | trailing => rfl
      | leading => exact absurd (h _ rfl) (Nat.not_succ_le_zero 0)
    | cons d ds =>
      obtain ⟨rfl, -⟩ := List.cons.inj ht
      rfl
  · have hlong := @trivia?_other side c (cs ++ behind) (fun t hc ht => hl ⟨hc, t, ht⟩)
      (fun t hc ht => hm ⟨hc, t, ht⟩) (fun t hc ht => hn ⟨hc, t, ht⟩)
    have hshort := @trivia?_other side c cs (fun t hc ht => hl ⟨hc, t ++ behind, by rw [ht]; rfl⟩)
      (fun t hc ht => hm ⟨hc, t ++ behind, by rw [ht]; rfl⟩)
      (fun t hc ht => hn ⟨hc, t ++ behind, by rw [ht]; rfl⟩)
    rw [hlong] at h ⊢
    rw [hshort]
    split
    · rfl
    next hline =>
    rw [if_neg hline] at h
    split
    · next hblank =>
      rw [if_pos hblank] at h
      rw [takeWhile_front (h _ rfl)]
    · rfl

end Cut

/-! ## Scans -/

namespace Scan

variable {side : Cut.Side} {offset : Nat} {a behind r : Text}

theorem length_gaps_rest (side : Cut.Side) (offset : Nat) (text : Text) :
    (gaps side offset text).rest.length ≤ text.length := by
  have hfull := congrArg List.length (gaps_fullText side offset text)
  rw [List.length_append] at hfull
  omega

theorem gaps_front (side : Cut.Side) (offset : Nat) (text : Text) (hb : behind ≠ []) :
    ∀ {a : Text}, text = a ++ behind → (gaps side offset text).rest = r ++ behind →
      gaps side offset a = ⟨(gaps side offset text).value, r, (gaps side offset text).reports⟩ := by
  have hpos := List.length_pos_iff.mpr hb
  fun_induction gaps side offset text
  case case1 =>
    intro a ht _
    exact absurd (List.append_eq_nil_iff.mp ht.symm).2 hb
  case case2 offset c cs hc =>
    intro a ht h
    obtain rfl : a = r := List.append_cancel_right (ht.symm.trans h)
    cases a with
    | nil => rw [gaps]
    | cons d ds =>
      obtain ⟨rfl, rfl⟩ := List.cons.inj ht
      have hsame : Cut.trivia? side c ds = none :=
        (Cut.trivia?_front fun cut hcut => by cases hc.symm.trans hcut).trans hc
      rw [gaps, hsame]
  case case3 offset c cs cut hc piece tail ih =>
    intro a ht h
    have hlen : (r ++ behind).length ≤ cs.length - cut.more := by
      rw [← List.length_drop, ← h]
      exact length_gaps_rest ..
    rw [List.length_append] at hlen
    cases a with
    | nil =>
      have hlength := congrArg List.length ht
      rw [List.nil_append, List.length_cons] at hlength
      omega
    | cons d ds =>
      obtain ⟨rfl, rfl⟩ := List.cons.inj ht
      have hlong : (ds.append behind).length = ds.length + behind.length := List.length_append
      have hle : cut.more ≤ ds.length := by omega
      have hsame : Cut.trivia? side c ds = some cut := by
        refine (Cut.trivia?_front fun cut' hcut => ?_).trans hc
        obtain rfl : cut = cut' := Option.some.inj (hc.symm.trans hcut)
        exact hle
      have hpiece : piece = c :: ds.take cut.more :=
        congrArg (c :: ·) (List.take_append_of_le_length hle)
      have hrest := ih (List.drop_append_of_le_length hle) h
      rw [gaps, hsame]
      simp only [← hpiece, hrest, tail]

/-- A lexeme in front of the cut. -/
theorem next_front {text : Text} (hb : behind ≠ []) (ht : text = a ++ behind)
    (hk : (next offset text).value.kind ≠ .eof) (h : (next offset text).rest = r ++ behind) :
    next offset a = ⟨(next offset text).value, r, (next offset text).reports⟩ := by
  have hfull := gaps_fullText .leading offset text
  cases hrest : (gaps .leading offset text).rest with
  | nil =>
    rw [next_of_end hrest] at hk
    exact absurd rfl hk
  | cons c cs =>
    have htrail := (next_of_char hrest).2.2.2
    obtain ⟨more, hcs, hle⟩ : ∃ more, cs = more ++ behind ∧
        (Cut.lexeme c cs).more ≤ more.length := by
      rw [h, ← List.append_assoc] at htrail
      refine ⟨cs.take (Cut.lexeme c cs).more ++
        (Gap.textOf (next offset text).value.trailing ++ r), ?_, ?_⟩
      · rw [List.append_assoc, htrail, List.take_append_drop]
      · have hmore := (Cut.lexeme_append c cs []).2
        rw [List.length_append, List.length_take]
        omega
    subst hcs
    have hlead := gaps_front .leading offset text hb (r := c :: more) ht hrest
    have hdrop := @List.drop_append_of_le_length _ _ behind _ hle
    unfold next at h ⊢
    simp only [hrest] at h ⊢
    simp only [hlead, Cut.lexeme_front hle, List.take_append_of_le_length hle] at h ⊢
    rw [gaps_front .trailing _ _ hb hdrop h]

end Scan

/-! ## Whole texts -/

namespace Lexemes

/-- The first of the lexemes of a text, and those behind it. -/
theorem scanFrom_cons {offset : Nat} {text : Text} {l : Lexeme} {more : List Lexeme}
    (h : (scanFrom offset text).body = l :: more) :
    (Scan.next offset text).value = l ∧ l.kind ≠ .eof ∧
      (scanFrom (offset + l.fullWidth) (Scan.next offset text).rest).body = more ∧
      (scanFrom offset text).reports = (Scan.next offset text).reports
        ++ (scanFrom (offset + l.fullWidth) (Scan.next offset text).rest).reports := by
  by_cases hk : (Scan.next offset text).value.kind = .eof
  · rw [scanFrom_of_eof hk] at h
    cases h
  · rw [scanFrom_of_ne hk] at h ⊢
    obtain ⟨rfl, hmore⟩ := List.cons.inj h
    exact ⟨rfl, hk, hmore, rfl⟩

/-- A text that is cut in front of a lexeme, behind the trivia in front of that lexeme. -/
theorem scanFrom_front {offset : Nat} {a behind : Text} {front more : List Lexeme} {l : Lexeme}
    (hb : behind ≠ []) (hbody : (scanFrom offset (a ++ behind)).body = front ++ l :: more)
    (ha : a = Lexeme.textOf front ++ Gap.textOf l.leading)
    (hr : (scanFrom offset (a ++ behind)).reports = []) :
    scanFrom offset a = ⟨front, ⟨l.leading, .eof, [], []⟩, []⟩ := by
  induction front generalizing offset a with
  | nil =>
    obtain ⟨hfirst, hk, -, hreports⟩ := scanFrom_cons hbody
    rw [hr] at hreports
    obtain ⟨hreport, -⟩ := List.append_eq_nil_iff.mp hreports.symm
    have hfull := Scan.gaps_fullText .leading offset (a ++ behind)
    cases hrest : (Scan.gaps .leading offset (a ++ behind)).rest with
    | nil =>
      rw [Scan.next_of_end hrest] at hfirst
      rw [← hfirst] at hk
      exact absurd rfl hk
    | cons c cs =>
      have hleading := (Scan.next_of_char hrest).1
      rw [hfirst] at hleading
      rw [hrest, ← hleading] at hfull
      have hbehind : c :: cs = [] ++ behind :=
        List.append_cancel_left (hfull.trans (congrArg (· ++ behind) ha))
      have hgaps := Scan.gaps_front .leading offset _ hb rfl (hrest.trans hbehind)
      have hlead : (Scan.gaps .leading offset (a ++ behind)).reports = [] := by
        unfold Scan.next at hreport
        simp only [hrest] at hreport
        exact (List.append_eq_nil_iff.mp (List.append_eq_nil_iff.mp hreport).1).1
      have hend := @Scan.next_of_end offset a (by rw [hgaps])
      rw [scanFrom_of_eof (by rw [hend]), hend, hgaps, ← hleading, hlead]
  | cons f front ih =>
    obtain ⟨hfirst, hk, hmore, hreports⟩ := scanFrom_cons hbody
    rw [hr] at hreports
    obtain ⟨hreport, htail⟩ := List.append_eq_nil_iff.mp hreports.symm
    have hfull := Scan.next_fullText offset (a ++ behind)
    rw [hfirst] at hfull
    have hrest : (Scan.next offset (a ++ behind)).rest
        = (Lexeme.textOf front ++ Gap.textOf l.leading) ++ behind := by
      refine List.append_cancel_left (hfull.trans ?_)
      rw [ha]
      simp [Lexeme.textOf]
    have hnext := Scan.next_front hb rfl (by rw [hfirst]; exact hk) hrest
    rw [hfirst, hreport] at hnext
    rw [hrest] at hmore htail
    rw [scanFrom_of_ne (by rw [hnext]; exact hk), hnext]
    simp only [ih hmore rfl htail, List.nil_append]

/-- The lexemes of a text that is cut in front of one of them. -/
theorem scan_front {text : Text} {front more : List Lexeme} {l : Lexeme}
    (hbody : (scan text).body = front ++ l :: more) (hr : (scan text).reports = []) :
    scan (Lexeme.textOf front ++ Gap.textOf l.leading)
      = ⟨front, ⟨l.leading, .eof, [], []⟩, []⟩ := by
  have hmem : l ∈ (scan text).body := hbody ▸ List.mem_append_right _ (List.mem_cons_self ..)
  have hne := text_ne_nil_scanFrom 0 text l hmem
  have htext := textOf_scan text
  rw [all, hbody] at htext
  have hcut : text = Lexeme.textOf front ++ Gap.textOf l.leading
      ++ (l.text ++ (Gap.textOf l.trailing ++ Lexeme.textOf (more ++ [(scan text).final]))) := by
    refine htext.symm.trans ?_
    simp [Lexeme.textOf, Lexeme.fullText]
  rw [hcut] at hbody hr
  exact scanFrom_front (fun hnil => hne (List.append_eq_nil_iff.mp hnil).1) hbody rfl hr

end Lexemes

end Stylesheet
