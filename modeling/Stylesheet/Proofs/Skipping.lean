import Stylesheet.Proofs.Standing

/-!
# What an error skips

An error takes lexemes up to where items can start again. A group in braces is taken whole, what it
holds does not matter; without its closing brace it goes on to the end of the text. Outside of such
groups an error takes nothing that starts an item, and nothing behind a semicolon.

Braces are matched here as in the whole text. A brace opened in a group is closed in it, and a brace
closed in a group was opened in it: so no group of an error reaches out of the error, and none from
outside reaches into it.

Results:
* `Run.exists_opening`, `Run.bracedLength_opening`: braces inside a group.
* `Lexemes.partner?_inside`, `Lexemes.exists_partner?`: the same in a text.
* `Lexemes.Skipped`, `Lexemes.skipped_unexpectedLength`: what an error takes.
-/
namespace Stylesheet

/-! ## Inside a group -/

namespace Run

open Lexeme

theorem kindAt_cons_succ (l : Lexeme) (rest : List Lexeme) (k : Nat) :
    kindAt (l :: rest) (k + 1) = kindAt rest k := by
  simp [kindAt]

theorem bracedLength_closing {l : Lexeme} (h : l.kind = .rightBrace) (depth : Nat)
    (rest : List Lexeme) :
    bracedLength (depth + 1) (l :: rest) = bracedLength depth rest + 1 := by
  simp [bracedLength, h]

theorem bracedLength_zero_closing {l : Lexeme} (h : l.kind = .rightBrace) (rest : List Lexeme) :
    bracedLength 0 (l :: rest) = 0 := by
  simp [bracedLength, h]

theorem bracedLength_brace {l : Lexeme} (h : l.kind = .leftBrace) (depth : Nat)
    (rest : List Lexeme) :
    bracedLength depth (l :: rest) = bracedLength (depth + 1) rest + 1 := by
  simp [bracedLength, h]

theorem bracedLength_plain {l : Lexeme} (h : l.isBrace = false) (depth : Nat)
    (rest : List Lexeme) :
    bracedLength depth (l :: rest) = bracedLength depth rest + 1 :=
  bracedLength_other (isBrace_eq_false_iff.mp h).1 (isBrace_eq_false_iff.mp h).2 depth rest

/-- An inner group ends before an outer one that ends. -/
theorem bracedLength_lt {inner depth : Nat} {ls : List Lexeme} (hlt : inner < depth)
    (h : bracedLength depth ls < ls.length) : bracedLength inner ls < bracedLength depth ls := by
  -- Both depths change together, so the inner one is zero at a brace that the outer one goes past.
  induction inner, ls using brace_induction generalizing depth with
  | nil inner => exact absurd h (Nat.not_lt_zero _)
  | last l rest hl =>
    obtain ⟨d, rfl⟩ := Nat.exists_eq_add_of_lt hlt
    rw [bracedLength_zero_closing hl, Nat.zero_add, bracedLength_closing hl]
    exact Nat.succ_pos _
  | closing inner l rest hl ih =>
    obtain ⟨d, rfl⟩ : ∃ d, depth = d + 1 := ⟨depth - 1, by omega⟩
    rw [bracedLength_closing hl] at h ⊢
    rw [bracedLength_closing hl]
    exact Nat.succ_lt_succ (ih (by omega) (Nat.lt_of_succ_lt_succ h))
  | opening inner l rest hl ih =>
    rw [bracedLength_brace hl] at h ⊢
    rw [bracedLength_brace hl]
    exact Nat.succ_lt_succ (ih (by omega) (Nat.lt_of_succ_lt_succ h))
  | other inner l rest hl ih =>
    rw [bracedLength_plain hl] at h ⊢
    rw [bracedLength_plain hl]
    exact Nat.succ_lt_succ (ih hlt (Nat.lt_of_succ_lt_succ h))

/-- Inside a group each lexeme changes the depth, and nothing else. -/
theorem exists_depth {depth : Nat} {l : Lexeme} {rest : List Lexeme}
    (h : 0 < bracedLength depth (l :: rest)) :
    ∃ d, bracedLength depth (l :: rest) = bracedLength d rest + 1 := by
  by_cases hl : l.kind = .leftBrace
  · exact ⟨_, bracedLength_brace hl depth rest⟩
  by_cases hr : l.kind = .rightBrace
  · cases depth with
    | zero =>
      rw [bracedLength_zero_closing hr] at h
      exact absurd h (Nat.lt_irrefl 0)
    | succ depth => exact ⟨_, bracedLength_closing hr depth rest⟩
  · exact ⟨_, bracedLength_other hl hr depth rest⟩

theorem exists_depth_drop {depth k : Nat} {ls : List Lexeme} (hk : k ≤ bracedLength depth ls) :
    ∃ d, bracedLength depth ls = k + bracedLength d (ls.drop k) := by
  induction k generalizing depth ls with
  | zero => exact ⟨depth, by simp⟩
  | succ k ih =>
    cases ls with
    | nil => simp [bracedLength] at hk
    | cons l rest =>
      obtain ⟨d, hd⟩ := exists_depth (Nat.lt_of_lt_of_le (Nat.succ_pos k) hk)
      obtain ⟨e, he⟩ := @ih d rest (by omega)
      exact ⟨e, by rw [hd, he, List.drop_succ_cons]; omega⟩

/-- Whether the lexeme at an index is a brace that is closed by the one at another index. -/
def ClosedAt (ls : List Lexeme) (m k : Nat) : Prop :=
  kindAt ls m = .leftBrace ∧ m + 1 + bracedLength 0 (ls.drop (m + 1)) = k

theorem ClosedAt.cons {ls : List Lexeme} {m k : Nat} (h : ClosedAt ls m k) (l : Lexeme) :
    ClosedAt (l :: ls) (m + 1) (k + 1) := by
  refine ⟨by rw [kindAt_cons_succ]; exact h.1, ?_⟩
  rw [List.drop_succ_cons, ← h.2]
  omega

theorem drop_of_kindAt {ls : List Lexeme} {k : Nat} (h : kindAt ls k ≠ .eof) :
    ∃ l, ls.drop k = l :: ls.drop (k + 1) ∧ l.kind = kindAt ls k := by
  have hlt : k < ls.length := by
    by_contra hn
    exact h (by rw [kindAt, List.getElem?_eq_none (Nat.not_lt.mp hn)]; rfl)
  exact ⟨ls[k], List.drop_eq_getElem_cons hlt, by rw [kindAt, List.getElem?_eq_getElem hlt]; rfl⟩

/-- What is opened in a group that ends is closed in it. -/
theorem bracedLength_opening {depth k : Nat} {ls : List Lexeme} (hk : k < bracedLength depth ls)
    (hl : kindAt ls k = .leftBrace) (h : bracedLength depth ls < ls.length) :
    k + 1 + bracedLength 0 (ls.drop (k + 1)) < bracedLength depth ls := by
  obtain ⟨d, hd⟩ := exists_depth_drop hk.le
  obtain ⟨l, hdrop, hkind⟩ := @drop_of_kindAt ls k (by simp [hl])
  rw [hdrop, bracedLength_brace (hkind.trans hl)] at hd
  have hinner := @bracedLength_lt 0 (d + 1) (ls.drop (k + 1)) (Nat.succ_pos d)
    (by rw [List.length_drop]; omega)
  omega

/-- What is closed in a group was opened in it, or is one of the groups that were open. -/
theorem exists_opening {depth k : Nat} {ls : List Lexeme} (hk : k < bracedLength depth ls)
    (hr : kindAt ls k = .rightBrace) :
    (∃ m < k, ClosedAt ls m k) ∨ ∃ d < depth, bracedLength d ls = k := by
  induction depth, ls using brace_induction generalizing k with
  | nil depth => simp [bracedLength] at hk
  | last l rest hl =>
    rw [bracedLength_zero_closing hl] at hk
    exact absurd hk (Nat.not_lt_zero _)
  | closing depth l rest hl ih =>
    cases k with
    | zero => exact .inr ⟨0, Nat.succ_pos _, bracedLength_zero_closing hl rest⟩
    | succ k =>
      rw [bracedLength_closing hl] at hk
      rcases ih (Nat.lt_of_succ_lt_succ hk) (by rwa [kindAt_cons_succ] at hr) with
        ⟨m, hm, hclose⟩ | ⟨d, hd, hlen⟩
      · exact .inl ⟨m + 1, Nat.succ_lt_succ hm, hclose.cons l⟩
      · exact .inr ⟨d + 1, Nat.succ_lt_succ hd, by rw [bracedLength_closing hl, hlen]⟩
  | opening depth l rest hl ih =>
    cases k with
    | zero => cases hl.symm.trans hr
    | succ k =>
      rw [bracedLength_brace hl] at hk
      rcases ih (Nat.lt_of_succ_lt_succ hk) (by rwa [kindAt_cons_succ] at hr) with
        ⟨m, hm, hclose⟩ | ⟨d, hd, hlen⟩
      · exact .inl ⟨m + 1, Nat.succ_lt_succ hm, hclose.cons l⟩
      · cases d with
        | zero =>
          -- The brace closes the group that `l` opens.
          exact .inl ⟨0, Nat.succ_pos k, hl, by simp [hlen, Nat.add_comm]⟩
        | succ d => exact .inr ⟨d, Nat.lt_of_succ_lt_succ hd, by rw [bracedLength_brace hl, hlen]⟩
  | other depth l rest hl ih =>
    cases k with
    | zero => exact absurd hr (isBrace_eq_false_iff.mp hl).2
    | succ k =>
      rw [bracedLength_plain hl] at hk
      rcases ih (Nat.lt_of_succ_lt_succ hk) (by rwa [kindAt_cons_succ] at hr) with
        ⟨m, hm, hclose⟩ | ⟨d, hd, hlen⟩
      · exact .inl ⟨m + 1, Nat.succ_lt_succ hm, hclose.cons l⟩
      · exact .inr ⟨d, hd, by rw [bracedLength_plain hl, hlen]⟩

/-- An error takes a group up to the brace that closes it, and goes on behind it. -/
theorem unexpectedLength_succ (starts : KindSet) (depth : Nat) (ls : List Lexeme) :
    unexpectedLength starts false (depth + 1) ls
      = if bracedLength depth ls < ls.length then
          bracedLength depth ls + 1
            + unexpectedLength starts false 0 (ls.drop (bracedLength depth ls + 1))
        else ls.length := by
  -- One lexeme more in front of what is left of the group.
  have hcons (l : Lexeme) (rest : List Lexeme) (b : Nat) :
      (if b < rest.length then b + 1 + unexpectedLength starts false 0 (rest.drop (b + 1))
          else rest.length) + 1
        = if b + 1 < (l :: rest).length then
            b + 1 + 1 + unexpectedLength starts false 0 ((l :: rest).drop (b + 1 + 1))
          else (l :: rest).length := by
    simp only [List.length_cons, List.drop_succ_cons, Nat.add_lt_add_iff_right]
    split <;> omega
  induction depth, ls using brace_induction with
  | nil depth => simp [unexpectedLength, bracedLength]
  | last l rest hl =>
    rw [bracedLength_zero_closing hl]
    simp [unexpectedLength, hl, Nat.add_comm]
  | closing depth l rest hl ih =>
    rw [bracedLength_closing hl, ← hcons, ← ih]
    simp [unexpectedLength, hl]
  | opening depth l rest hl ih =>
    rw [bracedLength_brace hl, ← hcons, ← ih]
    simp [unexpectedLength, hl]
  | other depth l rest hl ih =>
    obtain ⟨hopen, hclose⟩ := isBrace_eq_false_iff.mp hl
    rw [bracedLength_plain hl, ← hcons, ← ih]
    conv => lhs; unfold unexpectedLength
    split <;> simp_all

end Run

/-! ## Groups of a text -/

namespace Lexemes

variable {ls : Lexemes} {i j p : Nat}

theorem partner?_eq (hf : ls.final.kind = .eof) (h : Lexeme.kindAt ls.all i = .leftBrace) :
    Lexeme.partner? ls.all i
      = if Run.bracedLength 0 (ls.body.drop (i + 1)) < (ls.body.drop (i + 1)).length then
          some (i + 1 + Run.bracedLength 0 (ls.body.drop (i + 1))) else none := by
  have hfinal : ls.final.isBrace = false := by
    rw [Lexeme.isBrace, hf]
    rfl
  obtain ⟨l, hlt, hdrop, hkind⟩ := (drop_cases hf i).resolve_left (by simp [h])
  have hbody : ls.body = ls.body.take i ++ l :: ls.body.drop (i + 1) := by
    rw [← hdrop, List.take_append_drop]
  have hlength : (ls.body.take i).length = i := by
    rw [List.length_take, Nat.min_eq_left hlt.le]
  rw [all, Lexeme.partner?_concat hfinal]
  conv => lhs; rw [hbody]
  have hpartner := @Lexeme.partner?_append (ls.body.take i) (ls.body.drop (i + 1)) l
    (hkind.trans h)
  rwa [hlength] at hpartner

/-- A brace that is closed, by the lexemes behind it. -/
theorem partner?_iff (hf : ls.final.kind = .eof) (h : Lexeme.kindAt ls.all i = .leftBrace) :
    Lexeme.partner? ls.all i = some p ↔
      p < ls.body.length ∧ i + 1 + Run.bracedLength 0 (ls.body.drop (i + 1)) = p := by
  rw [partner?_eq hf h, List.length_drop]
  split
  · rw [Option.some.injEq]
    omega
  · simp only [reduceCtorEq, false_iff, not_and]
    omega

/-- A group that is closed ends with a closing brace. -/
theorem kindAt_partner? (hf : ls.final.kind = .eof) (h : Lexeme.kindAt ls.all i = .leftBrace)
    (hp : Lexeme.partner? ls.all i = some p) : i < p ∧ Lexeme.kindAt ls.all p = .rightBrace := by
  obtain ⟨hlt, rfl⟩ := (partner?_iff hf h).mp hp
  refine ⟨by omega, ?_⟩
  rw [← kindAt_cursor hf, Cursor.kindAt]
  rcases Run.outside_eq 0 (ls.body.drop (i + 1)) with hnil | ⟨r, rest, hcons, hr⟩
  · have := congrArg List.length hnil
    rw [Run.outside, List.length_drop, List.length_drop, List.length_nil] at this
    omega
  · have hahead : (ls.cursor (i + 1)).ahead = ls.body.drop (i + 1) := rfl
    rw [hahead, Lexeme.kindAt, ← List.head?_drop, ← Run.outside, hcons]
    exact hr

/-- What is opened in a group that is closed is closed in it. -/
theorem partner?_inside (hf : ls.final.kind = .eof) (hi : Lexeme.kindAt ls.all i = .leftBrace)
    (hp : Lexeme.partner? ls.all i = some p) (hij : i < j) (hjp : j < p)
    (hj : Lexeme.kindAt ls.all j = .leftBrace) : ∃ q < p, Lexeme.partner? ls.all j = some q := by
  obtain ⟨hlt, hlength⟩ := (partner?_iff hf hi).mp hp
  obtain ⟨k, rfl⟩ : ∃ k, j = i + 1 + k := ⟨j - (i + 1), by omega⟩
  have hkind : Lexeme.kindAt (ls.body.drop (i + 1)) k = .leftBrace :=
    (kindAt_cursor hf (i + 1) k).trans hj
  have hinner := @Run.bracedLength_opening 0 k _ (by omega) hkind (by rw [List.length_drop]; omega)
  rw [List.drop_drop, ← Nat.add_assoc] at hinner
  refine ⟨_, ?_, (partner?_iff hf hj).mpr ⟨?_, rfl⟩⟩
  · omega
  · omega

/-- What is closed in a group, up to the end of it or of the text, was opened in it. -/
theorem exists_partner? (hf : ls.final.kind = .eof) (hi : Lexeme.kindAt ls.all i = .leftBrace)
    (hij : i < j) (hin : ∀ p, Lexeme.partner? ls.all i = some p → j < p)
    (hj : Lexeme.kindAt ls.all j = .rightBrace) :
    ∃ m, i < m ∧ m < j ∧ Lexeme.kindAt ls.all m = .leftBrace ∧
      Lexeme.partner? ls.all m = some j := by
  obtain ⟨k, rfl⟩ : ∃ k, j = i + 1 + k := ⟨j - (i + 1), by omega⟩
  have hlt := lt_length_of_kindAt hf (i := i + 1 + k) (by simp [hj])
  have hkind : Lexeme.kindAt (ls.body.drop (i + 1)) k = .rightBrace :=
    (kindAt_cursor hf (i + 1) k).trans hj
  have hle := Production.bracedLength_le 0 (ls.body.drop (i + 1))
  have hk : k < Run.bracedLength 0 (ls.body.drop (i + 1)) := by
    by_contra hn
    have := hin _ ((partner?_iff hf hi).mpr ⟨by omega, rfl⟩)
    omega
  rcases Run.exists_opening hk hkind with ⟨m, hm, hopen, hclosed⟩ | ⟨d, hd, -⟩
  · have hm' : Lexeme.kindAt ls.all (i + 1 + m) = .leftBrace :=
      (kindAt_cursor hf (i + 1) m).symm.trans hopen
    rw [List.drop_drop, ← Nat.add_assoc] at hclosed
    exact ⟨i + 1 + m, by omega, by omega, hm', (partner?_iff hf hm').mpr ⟨hlt, by omega⟩⟩
  · exact absurd hd (Nat.not_lt_zero d)

/-! ## What is taken -/

/-- Whether the lexeme at index `j` is in the group that an opening brace at index `i` opens, braces
included. What is not closed goes on to the end of the text. -/
def InGroup (ls : Lexemes) (i j : Nat) : Prop :=
  Lexeme.kindAt ls.all i = .leftBrace ∧ i ≤ j ∧
    ∀ p, Lexeme.partner? ls.all i = some p → j ≤ p

/-- Whether a lexeme between two indices is in no group that is opened from the first one on. -/
structure TopLevel (ls : Lexemes) (start stop j : Nat) : Prop where
  le : start ≤ j
  lt : j < stop
  outside : ∀ i, start ≤ i → ¬ls.InGroup i j

/-- What an error may take between two indices where items start with some kinds. In some places the
`first` lexeme may be a closing brace. -/
structure Skipped (ls : Lexemes) (starts : KindSet) (first : Bool) (start stop : Nat) : Prop where
  le : start ≤ stop
  /-- Outside of groups nothing starts an item. -/
  items : ∀ j, ls.TopLevel start stop j → ¬starts.contains (Lexeme.kindAt ls.all j)
  /-- Outside of groups a closing brace can only come first. -/
  braces : ∀ j, ls.TopLevel start stop j → Lexeme.kindAt ls.all j = .rightBrace →
    first = true ∧ j = start
  /-- Outside of groups a semicolon comes last. -/
  semicolons : ∀ j, ls.TopLevel start stop j → Lexeme.kindAt ls.all j = .semicolon → j + 1 = stop
  /-- Any other closing brace closes a group that is opened from the first lexeme on. -/
  closes : ∀ j, start ≤ j → j < stop → Lexeme.kindAt ls.all j = .rightBrace →
    (∃ i, start ≤ i ∧ i < j ∧ Lexeme.kindAt ls.all i = .leftBrace ∧
      Lexeme.partner? ls.all i = some j) ∨ first = true ∧ j = start
  /-- It stops at the end of the text, before a closing brace or an item, or behind a semicolon that
  is in no group. -/
  stops : Lexeme.kindAt ls.all stop = .eof ∨ Lexeme.kindAt ls.all stop = .rightBrace ∨
    starts.contains (Lexeme.kindAt ls.all stop) ∨
    ∃ j, j + 1 = stop ∧ ls.TopLevel start stop j ∧ Lexeme.kindAt ls.all j = .semicolon

variable {starts : KindSet} {first : Bool} {start stop : Nat}

namespace TopLevel

theorem mono (h : ls.TopLevel start stop j) (hi : start ≤ i) (hij : i ≤ j) :
    ls.TopLevel i stop j :=
  ⟨hij, h.lt, fun k hk => h.outside k (Nat.le_trans hi hk)⟩

theorem cases_start (h : ls.TopLevel start stop j) : j = start ∨ ls.TopLevel (start + 1) stop j := by
  rcases Nat.eq_or_lt_of_le h.le with heq | hlt
  · exact .inl heq.symm
  · exact .inr (h.mono (Nat.le_succ start) hlt)

/-- A lexeme that opens no group may stand in front. -/
theorem pred (h : ls.TopLevel (i + 1) stop j) (hk : Lexeme.kindAt ls.all i ≠ .leftBrace) :
    ls.TopLevel i stop j := by
  refine ⟨Nat.le_of_succ_le h.le, h.lt, fun k hik hin => ?_⟩
  rcases Nat.eq_or_lt_of_le hik with rfl | hlt
  · exact hk hin.1
  · exact h.outside k hlt hin

/-- Where a group starts, only what stands behind it is outside. -/
theorem behind (hf : ls.final.kind = .eof) (h : ls.TopLevel i stop j)
    (hi : Lexeme.kindAt ls.all i = .leftBrace) (hp : Lexeme.partner? ls.all i = some p) :
    ls.TopLevel (p + 1) stop j := by
  have hip := (kindAt_partner? hf hi hp).1
  have hlt : p < j := by
    by_contra hn
    refine h.outside i (Nat.le_refl i) ⟨hi, h.le, fun q hq => ?_⟩
    cases hp.symm.trans hq
    exact Nat.not_lt.mp hn
  exact h.mono (by omega) hlt

/-- A group that is closed may stand in front. -/
theorem before (hf : ls.final.kind = .eof) (h : ls.TopLevel (p + 1) stop j)
    (hi : Lexeme.kindAt ls.all i = .leftBrace) (hp : Lexeme.partner? ls.all i = some p) :
    ls.TopLevel i stop j := by
  obtain ⟨hip, hclosing⟩ := kindAt_partner? hf hi hp
  have hpj := h.le
  refine ⟨by omega, h.lt, fun k hik hin => ?_⟩
  rcases Nat.lt_trichotomy k p with hkp | rfl | hpk
  · rcases Nat.eq_or_lt_of_le hik with rfl | hlt
    · exact absurd (hin.2.2 p hp) (Nat.not_le.mpr hpj)
    · obtain ⟨q, hq, hpartner⟩ := partner?_inside hf hi hp hlt hkp hin.1
      have := hin.2.2 q hpartner
      omega
  · cases hin.1.symm.trans hclosing
  · exact h.outside k hpk hin

end TopLevel

namespace Skipped

/-- Where nothing is taken. -/
theorem nothing (h : Lexeme.kindAt ls.all i = .eof ∨ Lexeme.kindAt ls.all i = .rightBrace ∨
    starts.contains (Lexeme.kindAt ls.all i)) : ls.Skipped starts first i i where
  le := Nat.le_refl i
  items _ hj := absurd hj.le (Nat.not_le.mpr hj.lt)
  braces _ hj := absurd hj.le (Nat.not_le.mpr hj.lt)
  semicolons _ hj := absurd hj.le (Nat.not_le.mpr hj.lt)
  closes _ hle hlt := absurd hle (Nat.not_le.mpr hlt)
  stops := h.imp_right fun h => h.imp_right .inl

/-- A lexeme that opens no group, and is no semicolon, in front of what is taken. -/
theorem cons (hs : ¬starts.contains (Lexeme.kindAt ls.all i))
    (hr : Lexeme.kindAt ls.all i = .rightBrace → first = true)
    (hl : Lexeme.kindAt ls.all i ≠ .leftBrace) (hc : Lexeme.kindAt ls.all i ≠ .semicolon)
    (ht : ls.Skipped starts false (i + 1) stop) : ls.Skipped starts first i stop where
  le := Nat.le_of_succ_le ht.le
  items j hj := by
    rcases hj.cases_start with rfl | hj
    · exact hs
    · exact ht.items j hj
  braces j hj hk := by
    rcases hj.cases_start with rfl | hj
    · exact ⟨hr hk, rfl⟩
    · cases (ht.braces j hj hk).1
  semicolons j hj hk := by
    rcases hj.cases_start with rfl | hj
    · exact absurd hk hc
    · exact ht.semicolons j hj hk
  closes j hle hlt hk := by
    rcases Nat.eq_or_lt_of_le hle with rfl | hle
    · exact .inr ⟨hr hk, rfl⟩
    · rcases ht.closes j hle hlt hk with ⟨m, hm, hmatch⟩ | ⟨hno, -⟩
      · exact .inl ⟨m, Nat.le_of_succ_le hm, hmatch⟩
      · cases hno
  stops := by
    refine ht.stops.imp_right fun h => h.imp_right fun h => h.imp_right ?_
    rintro ⟨j, hj, htop, hk⟩
    exact ⟨j, hj, htop.pred hl, hk⟩

/-- A semicolon is the last that is taken. -/
theorem semicolon (hs : ¬starts.contains (Lexeme.kindAt ls.all i))
    (h : Lexeme.kindAt ls.all i = .semicolon) : ls.Skipped starts first i (i + 1) where
  le := Nat.le_succ i
  items j hj := by
    obtain rfl : j = i := Nat.le_antisymm (Nat.le_of_lt_succ hj.lt) hj.le
    exact hs
  braces j hj hk := by
    obtain rfl : j = i := Nat.le_antisymm (Nat.le_of_lt_succ hj.lt) hj.le
    cases h.symm.trans hk
  semicolons j hj _ := by
    obtain rfl : j = i := Nat.le_antisymm (Nat.le_of_lt_succ hj.lt) hj.le
    rfl
  closes j hle hlt hk := by
    obtain rfl : j = i := Nat.le_antisymm (Nat.le_of_lt_succ hlt) hle
    cases h.symm.trans hk
  stops := by
    refine .inr (.inr (.inr ⟨i, rfl, ⟨Nat.le_refl i, Nat.lt_succ_self i, fun k hk hin => ?_⟩, h⟩))
    obtain rfl : k = i := Nat.le_antisymm hin.2.1 hk
    cases h.symm.trans hin.1

/-- A group that is closed, in front of what is taken. -/
theorem group (hf : ls.final.kind = .eof) (h : Lexeme.kindAt ls.all i = .leftBrace)
    (hp : Lexeme.partner? ls.all i = some p) (ht : ls.Skipped starts false (p + 1) stop) :
    ls.Skipped starts first i stop where
  le := by
    have hip := (kindAt_partner? hf h hp).1
    have hle := ht.le
    omega
  items j hj := ht.items j (hj.behind hf h hp)
  braces j hj hk := by
    cases (ht.braces j (hj.behind hf h hp) hk).1
  semicolons j hj := ht.semicolons j (hj.behind hf h hp)
  closes j hle hlt hk := by
    left
    have hip := (kindAt_partner? hf h hp).1
    have hij : i < j := by
      refine Nat.lt_of_le_of_ne hle ?_
      rintro rfl
      cases h.symm.trans hk
    rcases Nat.lt_trichotomy j p with hjp | rfl | hpj
    · obtain ⟨m, him, hmatch⟩ := exists_partner? hf h hij (fun q hq => by
        cases hp.symm.trans hq
        exact hjp) hk
      exact ⟨m, him.le, hmatch⟩
    · exact ⟨i, Nat.le_refl i, hij, h, hp⟩
    · rcases ht.closes j hpj hlt hk with ⟨m, hm, hmatch⟩ | ⟨hno, -⟩
      · exact ⟨m, by omega, hmatch⟩
      · cases hno
  stops := by
    refine ht.stops.imp_right fun hstop => hstop.imp_right fun hstop => hstop.imp_right ?_
    rintro ⟨j, hj, htop, hk⟩
    exact ⟨j, hj, htop.before hf h hp, hk⟩

/-- A group that is not closed takes all that is left. -/
theorem cut (hf : ls.final.kind = .eof) (h : Lexeme.kindAt ls.all i = .leftBrace)
    (hp : Lexeme.partner? ls.all i = none) : ls.Skipped starts first i ls.body.length := by
  have hnone (j : Nat) : ¬ls.TopLevel i ls.body.length j := fun hj =>
    hj.outside i (Nat.le_refl i) ⟨h, hj.le, fun q hq => by cases hp.symm.trans hq⟩
  refine ⟨?_, fun j hj => absurd hj (hnone j), fun j hj => absurd hj (hnone j),
    fun j hj => absurd hj (hnone j), fun j hle hlt hk => .inl ?_, .inl ?_⟩
  · exact (lt_length_of_kindAt hf (by simp [h])).le
  · have hij : i < j := by
      refine Nat.lt_of_le_of_ne hle ?_
      rintro rfl
      cases h.symm.trans hk
    obtain ⟨m, him, hmatch⟩ := exists_partner? hf h hij (fun q hq => by cases hp.symm.trans hq) hk
    exact ⟨m, him.le, hmatch⟩
  · rw [kindAt_all hf, Lexeme.kindAt, List.getElem?_eq_none (Nat.le_refl _)]
    rfl

end Skipped

/-- What the loop of an error takes, if its first lexeme is none that items start with. -/
theorem skipped_unexpectedLength (hf : ls.final.kind = .eof) (i : Nat)
    (hs : first = true → ¬starts.contains (Lexeme.kindAt ls.all i)) :
    ls.Skipped starts first i
      (i + Run.unexpectedLength starts first 0 (ls.body.drop i)) := by
  induction hn : ls.body.length - i using Nat.strongRecOn generalizing i first with
  | _ n ih =>
    subst hn
    rcases drop_cases hf i with ⟨hle, hend⟩ | ⟨l, hlt, hdrop, hl⟩
    · rw [List.drop_eq_nil_of_le hle]
      exact .nothing (.inl hend)
    rw [hdrop, Run.unexpectedLength]
    by_cases hstop : first = false ∧ (l.kind = .rightBrace ∨ starts.contains l.kind)
    · rw [if_pos (by simpa using hstop)]
      exact .nothing (.inr (hl ▸ hstop.2))
    rw [if_neg (by simpa using hstop)]
    rw [not_and_or, Bool.not_eq_false, not_or, hl] at hstop
    have hstart : ¬starts.contains (Lexeme.kindAt ls.all i) := hstop.elim hs And.right
    have hbrace : Lexeme.kindAt ls.all i = .rightBrace → first = true := fun hk =>
      hstop.resolve_right fun hstop => hstop.1 hk
    have hnext (j : Nat) (hj : i < j) := @ih (ls.body.length - j) (by omega) false j
      (fun hfirst => absurd hfirst Bool.false_ne_true) rfl
    split
    · next hopen =>
      -- A group is taken whole. What is taken behind it is as if it came first.
      rw [hl] at hopen
      have hpartner := partner?_eq hf hopen
      rw [Run.unexpectedLength_succ]
      split at hpartner
      · next hclosed =>
        have hbehind := hnext (i + 1 + Run.bracedLength 0 (ls.body.drop (i + 1)) + 1) (by omega)
        rw [if_pos hclosed, List.drop_drop, ← Nat.add_assoc (i + 1)]
        convert Skipped.group hf hopen hpartner hbehind using 1
        omega
      · next hcut =>
        rw [if_neg hcut, List.length_drop,
          show i + (ls.body.length - (i + 1) + 1) = ls.body.length by omega]
        exact .cut hf hopen hpartner
    · next hsemicolon => exact .semicolon hstart (hl.symm.trans hsemicolon)
    · next hopen hsemicolon =>
      rw [← Nat.add_assoc, Nat.add_right_comm]
      exact .cons hstart hbrace (hl ▸ hopen) (hl ▸ hsemicolon) (hnext (i + 1) (Nat.lt_succ_self i))

end Lexemes

end Stylesheet
