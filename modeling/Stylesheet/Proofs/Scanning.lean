import Stylesheet.Lexeme.Scan

/-!
# What a scan finds

Results:
* `Lexemes.textOf_scan`: the lexemes of a text, written one after the other, are the text.
* `Lexemes.kind_of_mem_body`, `Lexemes.kind_final`: only the last lexeme ends the text, and each
  lexeme can be a token of a tree.
* `Lexeme.slice_of_mem_located`: a lexeme's text is what stands at its place.
* `Lexemes.isError_of_mem_reports`: all that a scan reports is an error.
-/
namespace Stylesheet

/-! ## Kinds -/

namespace Cut

theorem wordKind_isName (word : Text) : (wordKind word).isName := by
  unfold wordKind Kind.ofKeyword?
  cases h : Kind.keywords.lookup (String.ofList word) with
  | none => rfl
  | some k =>
    obtain ⟨before, after, hk, -⟩ := List.lookup_eq_some_iff.mp h
    have hmem : (String.ofList word, k) ∈ Kind.keywords := by simp [hk]
    have hall : ∀ p ∈ Kind.keywords, p.2.isName := by decide
    exact hall _ hmem

theorem isToken_of_isName {k : Kind} (h : k.isName) : k.isToken ∧ k ≠ .eof := by
  revert h
  cases k <;> decide

/-- The lexeme at the front of a text can be a token, and does not end the text. -/
theorem lexeme_kind (c : Char) (cs : Text) :
    (lexeme c cs).kind.isToken ∧ (lexeme c cs).kind ≠ .eof := by
  fun_cases lexeme c cs
  all_goals first
    | exact ⟨rfl, by simp⟩
    | exact isToken_of_isName (wordKind_isName _)

/-! ## Reports -/

theorem severity_of_lexeme {c : Char} {cs : Text} {p : Problem}
    (h : (lexeme c cs).problem? = some p) : p.severity = .error := by
  revert h
  fun_cases lexeme c cs
  all_goals
    intro h
    first
      | (cases h; rfl)
      | cases h
      | (simp only at h; split at h <;> cases h; rfl)

/-- All that can be wrong with trivia is that a comment stays open. -/
theorem problem_of_trivia {side : Side} {c : Char} {cs : Text} {cut : Cut TriviaKind} {p : Problem}
    (hc : trivia? side c cs = some cut) (h : cut.problem? = some p) : p = .unterminatedComment := by
  revert hc
  fun_cases trivia? side c cs
  all_goals
    intro hc
    cases hc
  all_goals first
    | cases h
    | (simp only at h; split at h <;> cases h; rfl)

theorem severity_of_trivia {side : Side} {c : Char} {cs : Text} {cut : Cut TriviaKind} {p : Problem}
    (hc : trivia? side c cs = some cut) (h : cut.problem? = some p) : p.severity = .error := by
  rw [problem_of_trivia hc h]
  rfl

/-- A cut whose problem is an error reports errors. -/
theorem isError_of_mem_reports {κ : Type} {cut : Cut κ} {offset : Nat} {text : Text}
    (hp : ∀ p, cut.problem? = some p → p.severity = .error) :
    ∀ d ∈ cut.reports offset text, d.isError := by
  intro d hd
  cases h : cut.problem? with
  | none => simp [reports, h] at hd
  | some p =>
    simp only [reports, h, Option.map_some, Option.toList_some, List.mem_singleton] at hd
    simp [hd, Problem.reportAt, Diagnostic.isError, hp p h]

end Cut

namespace Scan

theorem isError_of_mem_gaps (side : Cut.Side) (offset : Nat) (text : Text) :
    ∀ d ∈ (gaps side offset text).reports, d.isError := by
  fun_induction gaps side offset text with
  | case1 | case2 => simp
  | case3 offset c cs cut h piece tail ih =>
    intro d hd
    rcases List.mem_append.mp hd with hd | hd
    · exact Cut.isError_of_mem_reports (fun p => Cut.severity_of_trivia h) d hd
    · exact ih d hd

theorem isError_of_mem_next (offset : Nat) (text : Text) :
    ∀ d ∈ (next offset text).reports, d.isError := by
  have hlead := isError_of_mem_gaps .leading offset text
  cases hr : (gaps .leading offset text).rest with
  | nil => rwa [next_of_end hr]
  | cons c cs =>
    simp only [next, hr]
    intro d hd
    rcases List.mem_append.mp hd with hd | hd
    · rcases List.mem_append.mp hd with hd | hd
      · exact hlead d hd
      · exact Cut.isError_of_mem_reports (fun p => Cut.severity_of_lexeme) d hd
    · exact isError_of_mem_gaps _ _ _ d hd

theorem next_kind_isToken (offset : Nat) (text : Text) : (next offset text).value.kind.isToken := by
  cases hr : (gaps .leading offset text).rest with
  | nil => rw [next_of_end hr]; rfl
  | cons c cs =>
    rw [(next_of_char hr).2.1]
    exact (Cut.lexeme_kind c cs).1

/-- The lexeme that ends a text owns nothing but the trivia in front of it. -/
theorem next_final {offset : Nat} {text : Text} (h : (next offset text).value.kind = .eof) :
    (next offset text).value.text = [] ∧ (next offset text).value.trailing = []
      ∧ (next offset text).rest = [] := by
  cases hr : (gaps .leading offset text).rest with
  | nil => simp [next_of_end hr]
  | cons c cs =>
    rw [(next_of_char hr).2.1] at h
    exact absurd h (Cut.lexeme_kind c cs).2

end Scan

namespace Lexemes

variable {offset : Nat} {text : Text}

theorem textOf_scanFrom (offset : Nat) (text : Text) :
    Lexeme.textOf (scanFrom offset text).all = text := by
  fun_induction scanFrom offset text with
  | case1 offset text first h =>
    have hfull := Scan.next_fullText offset text
    rw [(Scan.next_final h).2.2, List.append_nil] at hfull
    simpa [all, Lexeme.textOf] using hfull
  | case2 offset text first h hlt tail ih =>
    have hfull := Scan.next_fullText offset text
    simp only [all, List.cons_append, Lexeme.textOf, List.flatMap_cons] at ih ⊢
    rw [ih]
    exact hfull

/-- The lexemes of a text, written one after the other, are the text. -/
theorem textOf_scan (text : Text) : Lexeme.textOf (scan text).all = text := textOf_scanFrom 0 text

theorem kind_scanFrom (offset : Nat) (text : Text) :
    (∀ l ∈ (scanFrom offset text).body, l.kind.isToken ∧ l.kind ≠ .eof)
      ∧ (scanFrom offset text).final.kind = .eof := by
  fun_induction scanFrom offset text with
  | case1 offset text first h => simpa using h
  | case2 offset text first h hlt tail ih =>
    refine ⟨?_, ih.2⟩
    intro l hl
    rcases List.mem_cons.mp hl with rfl | hl
    · exact ⟨Scan.next_kind_isToken offset text, h⟩
    · exact ih.1 l hl

theorem kind_of_mem_body {l : Lexeme} (h : l ∈ (scan text).body) : l.kind.isToken ∧ l.kind ≠ .eof :=
  (kind_scanFrom 0 text).1 l h

theorem kind_final (text : Text) : (scan text).final.kind = .eof := (kind_scanFrom 0 text).2

theorem isError_scanFrom (offset : Nat) (text : Text) :
    ∀ d ∈ (scanFrom offset text).reports, d.isError := by
  fun_induction scanFrom offset text with
  | case1 offset text first h => exact Scan.isError_of_mem_next offset text
  | case2 offset text first h hlt tail ih =>
    intro d hd
    rcases List.mem_append.mp hd with hd | hd
    · exact Scan.isError_of_mem_next offset text d hd
    · exact ih d hd

/-- All that a scan reports is an error. -/
theorem isError_of_mem_reports {d : Diagnostic} (h : d ∈ (scan text).reports) : d.isError :=
  isError_scanFrom 0 text d h

end Lexemes

/-! ## Places -/

namespace Lexeme

theorem located_append (offset : Nat) (a b : List Lexeme) :
    located offset (a ++ b) = located offset a ++ located (offset + widthOf a) b := by
  induction a generalizing offset with
  | nil => simp [located, widthOf]
  | cons l ls ih => simp [located, widthOf, ih, Nat.add_assoc]

/-- What stands in front of a lexeme, and behind it, when lexemes are written one after the
other. -/
theorem slice_of_mem_located {ls : List Lexeme} {before : Text} {o : Nat} {l : Lexeme}
    (h : (o, l) ∈ located (Text.width before) ls) :
    Text.slice? (before ++ textOf ls) (Span.ofWidth o l.width) = some l.text := by
  induction ls generalizing before with
  | nil => simp [located] at h
  | cons m ls ih =>
    rcases List.mem_cons.mp h with h | h
    · obtain ⟨rfl, rfl⟩ := Prod.mk.inj h
      have hslice := Text.slice?_append (before ++ Gap.textOf l.leading) l.text
        (Gap.textOf l.trailing ++ textOf ls)
      simpa [textOf, fullText, leadingWidth, width] using hslice
    · have hwidth : Text.width (before ++ m.fullText) = Text.width before + m.fullWidth := by
        simp [width_fullText]
      rw [← hwidth] at h
      simpa [textOf] using ih h

end Lexeme

end Stylesheet
