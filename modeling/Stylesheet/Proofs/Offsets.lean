import Stylesheet.Proofs.Spans
import Stylesheet.Tree.Offset

/-!
# Tokens found by offset

A search for the tokens at an offset halves the row of tokens until it has the border between those
that end up to the offset and those that end after it. Tokens without width end where the one before
them does, so ends repeat; they never decrease, and halving needs no more.

**Border.** Tokens are laid end to end. In front of the border, one token at most reaches the offset:
the last one with width. Behind the border, one token at most does: the first one.

Results:
* `bisect_eq`: halving finds the border of a test that fails from some index on.
* `Place.Contiguous.filter_front`, `Place.Contiguous.filter_back`: what reaches the offset in front of
  the border, and behind it.
* `SyntaxTree.tokenAtOffset_around`: what is found at an offset is what a look at each token finds.
-/
namespace Stylesheet

/-! ## Halving -/

/-- Halving finds the border of a test that fails from some index on. -/
theorem bisect_eq {test : Nat → Bool} {low high border : Nat} (hlow : low ≤ border)
    (hhigh : border ≤ high) (hfront : ∀ i < border, test i)
    (hback : ∀ i, border ≤ i → i < high → ¬ test i) : bisect test low high = border := by
  fun_induction bisect test low high with
  | case1 low high hlt middle htest ih =>
    refine ih ?_ hhigh hback
    by_contra hle
    exact hback middle (by omega) (by omega) htest
  | case2 low high hlt middle htest ih =>
    refine ih hlow ?_ fun i hi _ => hback i hi (by omega)
    by_contra hle
    exact htest (hfront middle (by omega))
  | case3 low high hlt => omega

/-! ## Rows of tokens with a border -/

namespace Place

variable {p : Place} {ps : List Place} {start middle stop offset : Nat}

/-- Whether a place has width, and an offset lies inside its full span or at one of its ends. -/
def Reaches (offset : Nat) (p : Place) : Bool :=
  p.fullWidth ≠ 0 && p.fullSpan.start ≤ offset && offset ≤ p.fullSpan.stop

theorem reaches_iff :
    p.Reaches offset ↔ p.fullWidth ≠ 0 ∧ p.fullSpan.start ≤ offset ∧ offset ≤ p.fullSpan.stop := by
  simp [Reaches, and_assoc]

/-- Whether a place ends up to an offset. -/
def EndsBy (offset : Nat) (p : Place) : Bool := p.fullSpan.stop ≤ offset

/-- The last of some places that has width. -/
def lastWide? (ps : List Place) : Option Place := ps.reverse.find? (·.fullWidth ≠ 0)

theorem lastWide?_concat_of_eq (ps : List Place) (h : p.fullWidth = 0) :
    lastWide? (ps ++ [p]) = lastWide? ps := by
  rw [lastWide?, List.reverse_append]
  exact List.find?_cons_of_neg (by simpa using h)

theorem lastWide?_concat_of_ne (ps : List Place) (h : p.fullWidth ≠ 0) :
    lastWide? (ps ++ [p]) = some p := by
  rw [lastWide?, List.reverse_append]
  exact List.find?_cons_of_pos (by simpa using h)

namespace Contiguous

/-- The last token with width ends where the row does. -/
theorem stop_lastWide? (h : Contiguous start stop ps) :
    ∀ p ∈ lastWide? ps, p.fullSpan.stop = stop := by
  induction ps using List.reverseRecOn generalizing stop with
  | nil => exact nofun
  | append_singleton ps p ih =>
    obtain ⟨middle, hfront, hposition, hstop⟩ := h.split
    by_cases hwidth : p.fullWidth = 0
    · rw [lastWide?_concat_of_eq ps hwidth]
      rw [hwidth] at hstop
      exact (show middle = stop from hstop) ▸ ih hfront
    · rw [lastWide?_concat_of_ne ps hwidth]
      rintro _ ⟨⟩
      rw [fullSpan, Span.stop_ofWidth, hposition]
      exact hstop

/-- A row of tokens that end up to an offset ends up to it. -/
theorem stop_le (h : Contiguous start stop ps) (hstart : start ≤ offset)
    (hps : ∀ p ∈ ps, EndsBy offset p) : stop ≤ offset := by
  induction ps generalizing start with
  | nil => rwa [← show start = stop from h]
  | cons p ps ih =>
    have hp := of_decide_eq_true (hps p List.mem_cons_self)
    rw [fullSpan, Span.stop_ofWidth, h.1] at hp
    exact ih h.2 hp fun q hq => hps q (List.mem_cons_of_mem _ hq)

/-- Tokens that end in front of an offset do not reach it. -/
theorem filter_eq_nil_of_stop (h : Contiguous start stop ps) (hstop : stop < offset) :
    ps.filter (Reaches offset) = [] := by
  refine List.filter_eq_nil_iff.mpr fun p hp hreach => ?_
  have hle := (h.mem hp).2
  have hreach := (reaches_iff.mp hreach).2.2
  omega

theorem filter_eq_nil_of_start (h : Contiguous start stop ps) (hstart : offset < start) :
    ps.filter (Reaches offset) = [] := by
  refine List.filter_eq_nil_iff.mpr fun p hp hreach => ?_
  have hle := (h.mem hp).1
  have hreach : p.position ≤ offset := (reaches_iff.mp hreach).2.1
  omega

/-- In front of the border, the last token with width is the only one that may reach the offset. -/
theorem filter_front (h : Contiguous start stop ps) (hps : ∀ p ∈ ps, EndsBy offset p) :
    ps.filter (Reaches offset) = (lastWide? ps).toList.filter (·.fullSpan.stop = offset) := by
  induction ps using List.reverseRecOn generalizing stop with
  | nil => rfl
  | append_singleton ps p ih =>
    obtain ⟨middle, hfront, hposition, -⟩ := h.split
    rw [List.filter_append]
    by_cases hwidth : p.fullWidth = 0
    · have hskip : ¬ Reaches offset p := by simp [Reaches, hwidth]
      rw [lastWide?_concat_of_eq ps hwidth, List.filter_cons_of_neg hskip, List.filter_nil,
        List.append_nil]
      exact ih hfront fun q hq => hps q (List.mem_append_left _ hq)
    · have hend : p.fullSpan.stop ≤ offset :=
        of_decide_eq_true (hps p (List.mem_append_right _ List.mem_cons_self))
      have hlt : middle < offset := by
        rw [fullSpan, Span.stop_ofWidth, hposition] at hend
        omega
      rw [lastWide?_concat_of_ne ps hwidth, hfront.filter_eq_nil_of_stop hlt, List.nil_append]
      refine List.filter_congr fun q hq => ?_
      obtain rfl := List.mem_singleton.mp hq
      have hle := q.fullSpan.start_le_stop
      rw [Bool.eq_iff_iff, reaches_iff, decide_eq_true_iff]
      omega

/-- Behind the border, the first token is the only one that reaches the offset. -/
theorem filter_back (h : Contiguous start stop ps) (hstart : start ≤ offset)
    (hps : ∀ p ∈ ps, ¬ EndsBy offset p) : ps.filter (Reaches offset) = ps.head?.toList := by
  cases ps with
  | nil => rfl
  | cons p ps =>
    obtain ⟨hposition, hrest⟩ := h
    have hend : offset < start + p.fullWidth := by
      have hp := hps p List.mem_cons_self
      rw [EndsBy, decide_eq_true_iff, fullSpan, Span.stop_ofWidth, hposition] at hp
      omega
    have hreach : Reaches offset p := by
      rw [reaches_iff, fullSpan, Span.start_ofWidth, Span.stop_ofWidth, hposition]
      omega
    rw [List.filter_cons_of_pos hreach, hrest.filter_eq_nil_of_start hend]
    rfl

end Contiguous

end Place

/-! ## Trees -/

namespace TokenAtOffset

/-- What is found, told from a list of all tokens that are: three or more are never found. -/
def ofList? : List Place → Option TokenAtOffset
  | [] => some .none
  | [token] => some (.single token)
  | [left, right] => some (.between left right)
  | _ => none

theorem ofList?_toList (t : TokenAtOffset) : ofList? t.toList = some t := by
  cases t <;> rfl

end TokenAtOffset

namespace SyntaxTree

/-- The tokens with width whose full span has an offset inside or at one of its ends, in document
order. -/
def around (tree : SyntaxTree) (offset : Nat) : List Place := tree.tokens.filter (Place.Reaches offset)

/-- The tokens that end up to an offset come first, and halving finds the border behind them. -/
theorem exists_border (tree : SyntaxTree) (offset : Nat) :
    ∃ front back, tree.tokens = front ++ back ∧ (∀ p ∈ front, p.EndsBy offset) ∧
      (∀ p ∈ back, ¬ p.EndsBy offset) ∧
        bisect (fun i => tree.tokens[i]?.any (Place.EndsBy offset)) 0 tree.tokens.length
          = front.length := by
  generalize hfront : tree.tokens.takeWhile (Place.EndsBy offset) = front
  generalize hback : tree.tokens.dropWhile (Place.EndsBy offset) = back
  have hsplit : tree.tokens = front ++ back := by
    rw [← hfront, ← hback, List.takeWhile_append_dropWhile]
  have hends : ∀ p ∈ front, p.EndsBy offset := by
    rw [← hfront]
    exact fun p hp => List.all_eq_true.mp List.all_takeWhile p hp
  have hstays : ∀ p ∈ back, ¬ p.EndsBy offset := by
    have hordered := tree.root.contiguous.pairwise
    rw [show tree.root.tokenPlaces = front ++ back from hsplit] at hordered
    cases back with
    | nil => exact nofun
    | cons first rest =>
      have hfirst : ¬ first.EndsBy offset := by
        have hhead := List.head?_dropWhile_not (Place.EndsBy offset) tree.tokens
        rw [hback] at hhead
        simpa using hhead
      have hrest := (List.pairwise_append.mp hordered).2.1
      refine List.forall_mem_cons.mpr ⟨hfirst, fun p hp hend => hfirst ?_⟩
      -- ends never decrease
      have hbefore : first.fullSpan.stop ≤ p.fullSpan.start := List.rel_of_pairwise_cons hrest hp
      have hle := p.fullSpan.start_le_stop
      rw [Place.EndsBy, decide_eq_true_iff] at hend ⊢
      omega
  refine ⟨front, back, hsplit, hends, hstays, ?_⟩
  apply bisect_eq
  · exact Nat.zero_le _
  · rw [hsplit, List.length_append]
    exact Nat.le_add_right _ _
  · intro i hi
    rw [hsplit, List.getElem?_append_left hi, List.getElem?_eq_getElem hi]
    exact hends _ (List.getElem_mem hi)
  · intro i hi hlt
    rw [hsplit, List.length_append] at hlt
    rw [hsplit, List.getElem?_append_right hi, List.getElem?_eq_getElem (by omega)]
    exact hstays _ (List.getElem_mem _)

/-- What is found at an offset is what a look at each token finds. -/
theorem tokenAtOffset_around (tree : SyntaxTree) (offset : Nat) :
    TokenAtOffset.ofList? (tree.around offset) = some (tree.tokenAtOffset offset) := by
  suffices htokens : (tree.tokenAtOffset offset).toList = tree.around offset by
    rw [← htokens, TokenAtOffset.ofList?_toList]
  obtain ⟨front, back, hsplit, hends, hstays, hborder⟩ := tree.exists_border offset
  have hwhole := tree.root.contiguous
  rw [show tree.root.tokenPlaces = front ++ back from hsplit] at hwhole
  obtain ⟨border, hfront, hback⟩ := hwhole.split
  have hle : border ≤ offset := hfront.stop_le (Nat.zero_le _) hends
  have hprevious : (tree.tokens.take front.length).reverse.find? (·.fullWidth ≠ 0)
      = Place.lastWide? front := by
    rw [hsplit, List.take_left]
    rfl
  have hcurrent : tree.tokens[front.length]?.filter (·.position ≤ offset) = back.head? := by
    rw [hsplit, List.getElem?_append_right (Nat.le_refl _), Nat.sub_self, ← List.head?_eq_getElem?]
    cases back with
    | nil => rfl
    | cons p ps => exact Option.filter_some_pos (by simpa [hback.1] using hle)
  have hhalved : bisect (fun i => tree.tokens[i]?.any fun p => decide (p.fullSpan.stop ≤ offset)) 0
      tree.tokens.length = front.length := hborder
  rw [around, hsplit, List.filter_append, hfront.filter_front hends, hback.filter_back hle hstays]
  simp only [tokenAtOffset, List.size_toArray, List.getElem?_toArray]
  rw [hhalved, hprevious, hcurrent]
  cases hleft : Place.lastWide? front with
  | none => cases back <;> rfl
  | some left =>
    have hend := hfront.stop_lastWide? left hleft
    cases back with
    | nil => by_cases hoffset : left.fullSpan.stop = offset <;> simp [hoffset, TokenAtOffset.toList]
    | cons right rest =>
      -- one token ends where the other starts
      have hmeet : right.position = left.fullSpan.stop := hback.1.trans hend.symm
      by_cases hoffset : left.fullSpan.stop = offset <;> simp [hmeet, hoffset, TokenAtOffset.toList]

end SyntaxTree

end Stylesheet
