import Stylesheet.Proofs.Safety

/-!
# Texts without room

A text with few characters can have many slots, and a text with one element can be too long. Both
are shown here: in a row of signs that open a storyboard each sign is a storyboard that lacks all
the rest, and what is missing has slots too.

Results:
* `slotsBelow_signs`: a row of signs takes eight slots for each of them.
* `Parser.parse_overfull`: two texts that cannot be parsed.
-/
namespace Stylesheet

/-- A sign that opens a storyboard. -/
def Lexeme.sign : Lexeme := ⟨[], .atSign, ['@'], []⟩

/-- A row of signs. -/
def Text.signs (n : Nat) : Text := List.replicate n '@'

theorem Text.width_spaces (n : Nat) : Text.width (List.replicate n ' ') = n := by
  induction n with
  | zero => rfl
  | succ n ih =>
    rw [List.replicate_succ, Text.width_cons, ih]
    exact Nat.add_comm 1 n

/-! ## The lexemes -/

theorem Cut.trivia?_sign (side : Cut.Side) (cs : Text) : Cut.trivia? side '@' cs = none := by
  simp [Cut.trivia?, isLineEnd, isBlank, blankIntervals]

theorem Scan.gaps_signs (side : Cut.Side) (offset n : Nat) :
    Scan.gaps side offset (Text.signs n) = ⟨[], Text.signs n, []⟩ := by
  cases n with
  | zero => rw [Text.signs, List.replicate_zero, Scan.gaps]
  | succ n =>
    rw [Text.signs, List.replicate_succ, Scan.gaps]
    simp only [Cut.trivia?_sign]

theorem Scan.next_signs (offset n : Nat) :
    Scan.next offset (Text.signs (n + 1)) = ⟨.sign, Text.signs n, []⟩ := by
  have hlead : Scan.gaps .leading offset (Text.signs (n + 1)) = ⟨[], '@' :: Text.signs n, []⟩ :=
    Scan.gaps_signs ..
  have hcut : Cut.lexeme '@' (Text.signs n) = ⟨.atSign, 0, none⟩ := by simp [Cut.lexeme]
  simp only [Scan.next, hlead, hcut, List.drop_zero, Scan.gaps_signs]
  rfl

theorem Lexemes.scan_signs (n : Nat) :
    Lexemes.scan (Text.signs n) = ⟨List.replicate n .sign, ⟨[], .eof, [], []⟩, []⟩ := by
  suffices ∀ offset, Lexemes.scanFrom offset (Text.signs n)
      = ⟨List.replicate n .sign, ⟨[], .eof, [], []⟩, []⟩ from this 0
  induction n with
  | zero =>
    intro offset
    have hend : Scan.next offset (Text.signs 0) = ⟨⟨[], .eof, [], []⟩, [], []⟩ := by
      simp only [Scan.next, Scan.gaps_signs]
      rfl
    rw [Lexemes.scanFrom]
    simp only [hend]
    rfl
  | succ n ih =>
    intro offset
    rw [Lexemes.scanFrom]
    simp only [Scan.next_signs, ih]
    rfl

/-! ## The storyboards -/

/-- A storyboard of which only the sign is there. -/
def Draft.bareStoryboard : Draft :=
  .composite .storyboard [some (.single .atSign .sign), some (.missing .identifier), none,
    some (.composite .block [some (.missing .leftBrace), none, some (.missing .rightBrace)])]

namespace Production

variable {c : Cursor}

theorem kind_signs {n : Nat} (h : c.ahead = List.replicate n Lexeme.sign) :
    c.kind = .atSign ∨ c.kind = .eof := by
  cases n with
  | zero => exact .inr (by rw [Cursor.kind, Cursor.kindAt, h]; rfl)
  | succ n => exact .inl (by rw [Cursor.kind, Cursor.kindAt, h]; rfl)

theorem storyboard_signs {n : Nat} (h : c.ahead = List.replicate (n + 1) Lexeme.sign) :
    (storyboard c).value = .bareStoryboard ∧ (storyboard c).rest = c.advance 1 := by
  have hahead : c.ahead = .sign :: List.replicate n .sign := h
  have hrest : (c.advance 1).ahead = List.replicate n .sign := by simp [Cursor.advance, hahead]
  have hopening : Production.expect .atSign c = ⟨.single .atSign .sign, c.advance 1, [], []⟩ := by
    rw [expect_of_kind (by rw [Cursor.kind, Cursor.kindAt, hahead]; rfl), take_apply hahead]
    rfl
  have hname : ¬(c.advance 1).kind.isName := by
    rcases kind_signs hrest with hk | hk <;> rw [hk] <;> decide
  have hbrace : (c.advance 1).kind ≠ .leftBrace := by
    rcases kind_signs hrest with hk | hk <;> rw [hk] <;> decide
  obtain ⟨nameReports, hbareName⟩ : ∃ reports,
      expectName (c.advance 1) = ⟨.missing .identifier, c.advance 1, reports, []⟩ :=
    ⟨_, expectName_of_not hname⟩
  have hbehavior : nameStarts.contains (c.advance 1).kind = false := by
    rw [contains_nameStarts]
    exact Bool.eq_false_iff.mpr hname
  obtain ⟨blockReports, hbody⟩ : ∃ reports,
      block (KindSet.singleton .targetKeyword) target (c.advance 1)
        = ⟨.composite .block [some (.missing .leftBrace), none, some (.missing .rightBrace)],
          c.advance 1, reports, []⟩ :=
    ⟨_, (block_apply _).trans (if_neg hbrace)⟩
  have hbind : storyboard c = (do
      let atSign ← Production.expect .atSign
      let name ← expectName
      let behavior ← optional (← seesAny nameStarts) loopBehavior
      let body ← block (KindSet.singleton .targetKeyword) target
      return .composite .storyboard [some atSign, some name, behavior, some body] :
        Production Draft) c := rfl
  rw [hbind]
  simp only [bind_apply, pure_apply, hopening, hbareName, seesAny, holds, look, hbehavior,
    optional_false, hbody]
  exact ⟨rfl, trivial⟩

/-- A row of signs is a row of storyboards. -/
theorem many_documentStep_signs {n : Nat} (h : c.ahead = List.replicate n Lexeme.sign) :
    (many documentStep c).value = List.replicate n Draft.bareStoryboard := by
  induction n generalizing c with
  | zero =>
    have hkind : c.kind = .eof := by rw [Cursor.kind, Cursor.kindAt, h]; rfl
    have hstep := documentStep_apply c
    rw [if_pos hkind] at hstep
    rw [many_of_none (by rw [hstep])]
    rfl
  | succ n ih =>
    have hahead : c.ahead = .sign :: List.replicate n .sign := h
    have hrest : (c.advance 1).ahead = List.replicate n .sign := by simp [Cursor.advance, hahead]
    have hkind : c.kind = .atSign := by rw [Cursor.kind, Cursor.kindAt, hahead]; rfl
    have hstep := documentStep_apply c
    rw [if_neg (by rw [hkind]; decide), map_apply, item_storyboard hkind, (storyboard_signs h).1,
      (storyboard_signs h).2] at hstep
    rw [many_of_some (by rw [hstep]) (by rw [hstep, hrest, h]; simp), hstep]
    show Draft.bareStoryboard :: (many documentStep (c.advance 1)).value = _
    rw [ih hrest]
    rfl

end Production

/-- The parts of a row of signs: a list of storyboards, and the end of the text. -/
theorem partsOf_signs (n : Nat) :
    partsOf (Text.signs n) = (Draft.list (List.replicate n .bareStoryboard)).toList
      ++ [.single .eof ⟨[], .eof, [], []⟩] := by
  have hscan := Lexemes.scan_signs n
  have hitems : (itemsOf (Text.signs n)).value = List.replicate n .bareStoryboard :=
    Production.many_documentStep_signs (by rw [hscan]; rfl)
  rw [partsOf_eq, hitems, endOf, hscan]

theorem slotsBelow_signs (n : Nat) : (parse (Text.signs n)).tree.slotsBelow = 8 * n := by
  have hstoryboards :
      Draft.usage .slots (List.replicate n Draft.bareStoryboard) = 7 * n := by
    induction n with
    | zero => rfl
    | succ n ih =>
      rw [List.replicate_succ, Draft.usage_cons, ih]
      show 7 + _ = _
      omega
  rw [slotsBelow_parse, partsOf_signs, Draft.usage_append]
  show _ + 0 = _
  unfold Draft.list
  split
  · next h =>
    have hn : n = 0 := by simpa using h
    subst hn
    rfl
  · show (Draft.composite .list _).element.usage .slots + 0 + 0 = _
    rw [Draft.usage_composite, List.reduceOption, List.filterMap_map, Function.id_comp,
      List.filterMap_some, hstoryboards, List.length_map, List.length_replicate]
    show 0 + (1 * n + 7 * n) + 0 + 0 = 8 * n
    omega

namespace Parser

/-- Neither a text with too many slots nor one with too many bytes can be parsed. -/
theorem parse_overfull :
    (∃ e, parse (Text.signs (sizeLimit / 8)) = .error (.build e) ∧ e.isLimit) ∧
      parse (List.replicate sizeLimit ' ') = .error (.build .textTooLong) := by
  constructor
  · refine ((parse_cases _).resolve_left fun ⟨hfits, _⟩ => ?_).2
    have hslots := hfits.slots
    have hall : 8 * (sizeLimit / 8) = sizeLimit := by decide
    rw [slotsBelow_signs, hall] at hslots
    exact Nat.lt_irrefl _ hslots
  · have hwidth : Text.width (List.replicate sizeLimit ' ') = sizeLimit :=
      Text.width_spaces sizeLimit
    have hfitting : fitting (Text.width (List.replicate sizeLimit ' ')) .textTooLong
        = .error .textTooLong := if_neg (by rw [hwidth]; exact Nat.lt_irrefl _)
    rw [parse, hfitting]
    rfl

end Parser

end Stylesheet
