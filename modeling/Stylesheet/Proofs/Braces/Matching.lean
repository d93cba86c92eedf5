import Stylesheet.Proofs.Reading.Declarations

/-!
# Matching braces

Braces of a text match on a stack: a closing brace matches the innermost brace that is open, and is
unmatched where none is. Where an open brace is matched depends only on what stands behind it: on
the first closing brace there that is one too many, the one `Run.bracedLength` counts up to.

Results:
* `Lexeme.partner?_append`: where an open brace is matched, by what stands behind it.
* `Run.outside_outside`: behind the brace that closes the inner groups stands what is in the outer
  ones.
* `Run.outside_eq`: a group ends at a closing brace, or with the text.
-/
namespace Stylesheet

/-! ## Braces of a text -/

namespace Lexeme

/-- Which braces match, as indices: those at the indices `opened`, innermost first, are open, and
`index` is the one of the first lexeme. -/
def bracePairs (opened : List Nat) (index : Nat) : List Lexeme → List (Nat × Nat)
  | [] => []
  | l :: rest =>
    match l.kind, opened with
    | .leftBrace, _ => bracePairs (index :: opened) (index + 1) rest
    | .rightBrace, innermost :: outer => (innermost, index) :: bracePairs outer (index + 1) rest
    | _, _ => bracePairs opened (index + 1) rest

/-- The index of the brace that matches the opening brace at an index. -/
def partner? (ls : List Lexeme) (i : Nat) : Option Nat := (bracePairs [] 0 ls).lookup i

/-- Whether a lexeme is a brace. -/
def isBrace (l : Lexeme) : Bool := l.kind = .leftBrace || l.kind = .rightBrace

variable {l : Lexeme} {opened : List Nat} {index : Nat} {rest : List Lexeme}

theorem isBrace_eq_false_iff : l.isBrace = false ↔ l.kind ≠ .leftBrace ∧ l.kind ≠ .rightBrace := by
  simp [isBrace]

theorem bracePairs_opening (h : l.kind = .leftBrace) :
    bracePairs opened index (l :: rest) = bracePairs (index :: opened) (index + 1) rest := by
  simp [bracePairs, h]

theorem bracePairs_closing {innermost : Nat} (h : l.kind = .rightBrace) :
    bracePairs (innermost :: opened) index (l :: rest)
      = (innermost, index) :: bracePairs opened (index + 1) rest := by
  simp [bracePairs, h]

theorem bracePairs_unmatched (h : l.kind = .rightBrace) :
    bracePairs [] index (l :: rest) = bracePairs [] (index + 1) rest := by
  simp [bracePairs, h]

theorem bracePairs_other (h : l.isBrace = false) :
    bracePairs opened index (l :: rest) = bracePairs opened (index + 1) rest := by
  obtain ⟨hl, hr⟩ := isBrace_eq_false_iff.mp h
  conv => lhs; unfold bracePairs
  split <;> simp_all

end Lexeme

namespace Run

/-- What is left of some lexemes from the brace on that closes `depth` open groups and the one
around them. -/
def outside (depth : Nat) (ls : List Lexeme) : List Lexeme := ls.drop (bracedLength depth ls)

variable {l : Lexeme} {depth : Nat} {rest : List Lexeme}

@[simp] theorem outside_nil : outside depth [] = [] := by simp [outside]

theorem outside_zero_closing (h : l.kind = .rightBrace) : outside 0 (l :: rest) = l :: rest := by
  simp [outside, bracedLength, h]

theorem outside_closing (h : l.kind = .rightBrace) :
    outside (depth + 1) (l :: rest) = outside depth rest := by
  simp [outside, bracedLength, h]

theorem outside_opening (h : l.kind = .leftBrace) :
    outside depth (l :: rest) = outside (depth + 1) rest := by
  simp [outside, bracedLength, h]

theorem outside_other (h : l.isBrace = false) : outside depth (l :: rest) = outside depth rest := by
  obtain ⟨hl, hr⟩ := Lexeme.isBrace_eq_false_iff.mp h
  simp [outside, bracedLength_other hl hr]

theorem outside_append {ls : List Lexeme} (h : ∀ l ∈ ls, l.isBrace = false) :
    outside depth (ls ++ rest) = outside depth rest := by
  induction ls with
  | nil => rfl
  | cons l ls ih =>
    rw [List.cons_append, outside_other (h l List.mem_cons_self),
      ih fun m hm => h m (List.mem_cons_of_mem _ hm)]

/-- Induction along the groups that are open, `depth` of them and the one around them. -/
@[elab_as_elim]
theorem brace_induction {motive : Nat → List Lexeme → Prop} (nil : ∀ depth, motive depth [])
    (last : ∀ l rest, l.kind = .rightBrace → motive 0 (l :: rest))
    (closing : ∀ depth l rest, l.kind = .rightBrace → motive depth rest →
      motive (depth + 1) (l :: rest))
    (opening : ∀ depth l rest, l.kind = .leftBrace → motive (depth + 1) rest →
      motive depth (l :: rest))
    (other : ∀ depth l rest, l.isBrace = false → motive depth rest → motive depth (l :: rest))
    (depth : Nat) (ls : List Lexeme) : motive depth ls := by
  induction ls generalizing depth with
  | nil => exact nil depth
  | cons l rest ih =>
    by_cases hl : l.kind = .leftBrace
    · exact opening depth l rest hl (ih (depth + 1))
    by_cases hr : l.kind = .rightBrace
    · cases depth with
      | zero => exact last l rest hr
      | succ depth => exact closing depth l rest hr (ih depth)
    · exact other depth l rest (Lexeme.isBrace_eq_false_iff.mpr ⟨hl, hr⟩) (ih depth)

/-- Behind the brace that closes the inner groups stands what is in the outer ones. -/
theorem outside_outside (inner depth : Nat) (ls : List Lexeme) :
    outside depth (outside inner ls).tail = outside (depth + inner + 1) ls := by
  induction inner, ls using brace_induction with
  | nil inner => simp
  | last l rest h => rw [outside_zero_closing h, outside_closing h, List.tail_cons]
  | closing inner l rest h ih =>
    rw [outside_closing h, ih, outside_closing h, Nat.add_assoc depth inner 1]
  | opening inner l rest h ih =>
    rw [outside_opening h, ih, outside_opening h, Nat.add_assoc depth inner 1]
  | other inner l rest h ih => rw [outside_other h, ih, outside_other h]

/-- A group ends at a closing brace, or with the text. -/
theorem outside_eq (depth : Nat) (ls : List Lexeme) :
    outside depth ls = [] ∨ ∃ r rest, outside depth ls = r :: rest ∧ r.kind = .rightBrace := by
  induction depth, ls using brace_induction with
  | nil depth => exact .inl outside_nil
  | last l rest h => exact .inr ⟨l, rest, outside_zero_closing h, h⟩
  | closing depth l rest h ih => rwa [outside_closing h]
  | opening depth l rest h ih => rwa [outside_opening h]
  | other depth l rest h ih => rwa [outside_other h]

end Run

namespace Lexeme

/-- A brace that is open, the braces `opened` inside it, is matched behind the groups of these. -/
theorem lookup_bracePairs {opened outer : List Nat} {i index : Nat} {ls : List Lexeme}
    (hi : i ∉ opened) (hlt : i < index) :
    (bracePairs (opened ++ i :: outer) index ls).lookup i
      = if Run.bracedLength opened.length ls < ls.length then
          some (index + Run.bracedLength opened.length ls) else none := by
  generalize hdepth : opened.length = depth
  induction depth, ls using Run.brace_induction generalizing opened index with
  | nil depth => simp [bracePairs]
  | last l rest h =>
    rw [List.length_eq_zero_iff.mp hdepth, List.nil_append, bracePairs_closing h]
    simp [Run.bracedLength, h]
  | closing depth l rest h ih =>
    obtain ⟨o, inner, rfl⟩ := List.exists_cons_of_length_eq_add_one hdepth
    have hne : (i == o) = false := by simpa using (List.ne_of_not_mem_cons hi)
    rw [List.cons_append, bracePairs_closing h, List.lookup_cons, hne,
      ih (List.not_mem_of_not_mem_cons hi) (by omega) (by simpa using hdepth)]
    simp [Run.bracedLength, h, Nat.add_assoc, Nat.add_comm 1]
  | opening depth l rest h ih =>
    have hnew : i ∉ index :: opened := List.not_mem_cons_of_ne_of_not_mem (by omega) hi
    rw [bracePairs_opening h, ← List.cons_append, ih hnew (by omega) (by simp [hdepth])]
    simp [Run.bracedLength, h, Nat.add_assoc, Nat.add_comm 1]
  | other depth l rest h ih =>
    obtain ⟨hl, hr⟩ := isBrace_eq_false_iff.mp h
    rw [bracePairs_other h, ih hi (by omega) hdepth, Run.bracedLength_other hl hr]
    simp [Nat.add_assoc, Nat.add_comm 1]

/-- How a brace is matched does not hang on what stands before it, but for the braces that are open
there. -/
theorem exists_opened (before rest : List Lexeme) {opened : List Nat} {index i : Nat}
    (hopen : ∀ o ∈ opened, o < index) (hi : index + before.length ≤ i) :
    ∃ outer, (bracePairs opened index (before ++ rest)).lookup i
      = (bracePairs outer (index + before.length) rest).lookup i := by
  induction before generalizing opened index with
  | nil => exact ⟨opened, rfl⟩
  | cons l before ih =>
    have hlen : index + (l :: before).length = index + 1 + before.length := by
      simp [Nat.add_assoc, Nat.add_comm 1]
    have hmore : ∀ o ∈ opened, o < index + 1 := fun o ho => Nat.lt_succ_of_lt (hopen o ho)
    rw [hlen] at hi ⊢
    rw [List.cons_append]
    by_cases hl : l.kind = .leftBrace
    · rw [bracePairs_opening hl]
      exact ih (List.forall_mem_cons.mpr ⟨Nat.lt_succ_self index, hmore⟩) hi
    by_cases hr : l.kind = .rightBrace
    · cases opened with
      | nil =>
        rw [bracePairs_unmatched hr]
        exact ih hmore hi
      | cons o inner =>
        have hne : (i == o) = false := by
          have := hopen o List.mem_cons_self
          simp only [beq_eq_false_iff_ne]
          omega
        rw [bracePairs_closing hr, List.lookup_cons, hne]
        exact ih (fun o ho => hmore o (List.mem_cons_of_mem _ ho)) hi
    · rw [bracePairs_other (isBrace_eq_false_iff.mpr ⟨hl, hr⟩)]
      exact ih hmore hi

/-- An opening brace is matched by the brace that closes one group more than are opened behind
it. -/
theorem partner?_append {before after : List Lexeme} {l : Lexeme} (h : l.kind = .leftBrace) :
    partner? (before ++ l :: after) before.length
      = if Run.bracedLength 0 after < after.length then
          some (before.length + 1 + Run.bracedLength 0 after) else none := by
  have hnone : before.length ∉ ([] : List Nat) := List.not_mem_nil
  obtain ⟨outer, houter⟩ := @exists_opened before (l :: after) [] 0 before.length
    (by simp) (by simp)
  rw [partner?, houter, bracePairs_opening h, Nat.zero_add]
  exact lookup_bracePairs hnone (Nat.lt_succ_self _)

/-- What is no brace at the end changes nothing. -/
theorem partner?_concat {ls : List Lexeme} {l : Lexeme} (h : l.isBrace = false) (i : Nat) :
    partner? (ls ++ [l]) i = partner? ls i := by
  have hpairs (opened : List Nat) (index : Nat) :
      bracePairs opened index (ls ++ [l]) = bracePairs opened index ls := by
    fun_induction bracePairs opened index ls with
    | case1 opened index => exact bracePairs_other h
    | case2 opened index m rest hm ih => rw [List.cons_append, bracePairs_opening hm, ih]
    | case3 index m rest o outer hm ih => rw [List.cons_append, bracePairs_closing hm, ih]
    | case4 opened index m rest hl hr ih =>
      rw [List.cons_append]
      conv => lhs; unfold bracePairs
      split <;> simp_all
  rw [partner?, hpairs, partner?]

end Lexeme

end Stylesheet
