import Stylesheet.Proofs.Pairing.Loops
import Stylesheet.Proofs.Recognition.Declarations

/-!
# Declarations side by side

A value is counted before it is read. What is counted stays the same when the text goes on, as long
as something stands behind the value: a closing brace, or for a plain value one lexeme, and two
where the start of another evaluation could end it.

Results:
* `Run.bracedLength_extend`, `Run.valueLength_extend`: counts in a text that goes on.
* `Pairing.steady_value`, `Pairing.steady_rule`, `Pairing.steady_transition`.
-/
namespace Stylesheet

/-! ## Counts -/

namespace Run

variable {ls ls' : List Lexeme} {more : List Kind}

/-- A group that is closed is closed by the same brace. -/
theorem bracedLength_extend {depth : Nat} (h : ls'.map Lexeme.kind = ls.map Lexeme.kind ++ more)
    (hm : more = [] ∨ bracedLength depth ls < ls.length) :
    bracedLength depth ls = bracedLength depth ls' := by
  induction ls generalizing ls' depth with
  | nil =>
    have hnil : more = [] := hm.resolve_right (Nat.not_lt_zero _)
    rw [hnil] at h
    rw [List.map_eq_nil_iff.mp h]
  | cons l ls ih =>
    obtain ⟨l', ls', rfl, hl, hrest⟩ := List.map_eq_cons_iff.mp h
    unfold bracedLength at hm ⊢
    rw [hl]
    split at hm
    · rfl
    all_goals
      rw [List.length_cons] at hm
      exact congrArg (· + 1) (ih hrest (hm.imp_right fun hm => by omega))

theorem kindAt_extend {n : Nat} (h : ls'.map Lexeme.kind = ls.map Lexeme.kind ++ more)
    (hn : n < ls.length) : Lexeme.kindAt ls' n = Lexeme.kindAt ls n := by
  have hget : (ls'.map Lexeme.kind)[n]? = (ls.map Lexeme.kind)[n]? := by
    rw [h, List.getElem?_append_left (by simpa using hn)]
  rw [Lexeme.kindAt, Lexeme.kindAt, ← List.getElem?_map, ← List.getElem?_map, hget]

theorem lt_of_kindAt {n : Nat} (h : Lexeme.kindAt ls n ≠ .eof) : n < ls.length := by
  by_contra hn
  rw [Lexeme.kindAt, List.getElem?_eq_none (Nat.not_lt.mp hn)] at h
  exact h rfl

/-- What compares goes on to compare. -/
theorem comparesNext_extend (h : ls'.map Lexeme.kind = ls.map Lexeme.kind ++ more)
    (hc : comparesNext ls = true) : comparesNext ls' = true := by
  have hkeep {n : Nat} (hk : Lexeme.kindAt ls n ≠ .eof) : Lexeme.kindAt ls' n = Lexeme.kindAt ls n :=
    kindAt_extend h (lt_of_kindAt hk)
  have heof {n : Nat} (hk : (Lexeme.kindAt ls n).isComparison = true) : Lexeme.kindAt ls n ≠ .eof := by
    intro he
    rw [he] at hk
    cases hk
  rw [comparesNext, Bool.or_eq_true, Bool.and_eq_true] at hc ⊢
  rcases hc with hc | ⟨hp, hc⟩
  · exact .inl (hkeep (heof hc) ▸ hc)
  · have hp : Lexeme.kindAt ls 0 = .period := of_decide_eq_true hp
    refine .inr ⟨?_, hkeep (heof hc) ▸ hc⟩
    rw [hkeep (by simp [hp]), hp]
    rfl

/-- What does not compare goes on not to, if two lexemes follow it, or what follows it is no
period. -/
theorem comparesNext_of_extend (h : ls'.map Lexeme.kind = ls.map Lexeme.kind ++ more)
    (hl : 3 ≤ ls.length ∨ 1 ≤ ls.length ∧ Lexeme.kindAt ls 0 ≠ .period)
    (hc : comparesNext ls' = true) : comparesNext ls = true := by
  have hfirst : Lexeme.kindAt ls' 0 = Lexeme.kindAt ls 0 := kindAt_extend h (by omega)
  rw [comparesNext, hfirst, Bool.or_eq_true, Bool.and_eq_true] at hc
  rw [comparesNext, Bool.or_eq_true, Bool.and_eq_true]
  refine hc.imp_right fun hc => ⟨hc.1, ?_⟩
  have hlen : 3 ≤ ls.length := hl.resolve_right fun hl => hl.2 (of_decide_eq_true hc.1)
  rw [← kindAt_extend h hlen]
  exact hc.2

/-- The lexemes that have to stand behind a plain value. -/
def margin (context : Context) : Nat := if context = .evaluation then 2 else 1

variable {context : Context} {first : Bool} {k : Kind}

theorem endsValue_extend (h : ls'.map Lexeme.kind = ls.map Lexeme.kind ++ more)
    (he : endsValue context first k ls = true) : endsValue context first k ls' = true := by
  unfold endsValue at he ⊢
  split at he
  all_goals first | rfl | assumption | skip
  · obtain ⟨ha, hi⟩ := Bool.and_eq_true_iff.mp he
    have hi : Lexeme.kindAt ls 0 = .importantKeyword := of_decide_eq_true hi
    rw [kindAt_extend h (lt_of_kindAt (by simp [hi])), ha, hi]
    rfl
  · obtain ⟨ha, hc⟩ := Bool.and_eq_true_iff.mp he
    rw [ha, comparesNext_extend h hc]
    rfl

theorem endsValue_of_extend (h : ls'.map Lexeme.kind = ls.map Lexeme.kind ++ more)
    (hn : 1 ≤ ls.length)
    (hl : context = .evaluation → 3 ≤ ls.length ∨ Lexeme.kindAt ls 0 ≠ .period)
    (he : endsValue context first k ls' = true) : endsValue context first k ls = true := by
  unfold endsValue at he ⊢
  split at he
  all_goals first | rfl | assumption | skip
  · rwa [kindAt_extend h hn] at he
  · obtain ⟨ha, hc⟩ := Bool.and_eq_true_iff.mp he
    have hcontext : context = .evaluation := by
      simp only [Bool.and_eq_true, decide_eq_true_iff] at ha
      exact ha.1.1
    rw [ha, comparesNext_of_extend h ((hl hcontext).imp_right fun hl => ⟨hn, hl⟩) hc]
    rfl

theorem margin_pos (context : Context) : 1 ≤ margin context := by
  unfold margin
  split <;> omega

/-- No plain value ends at a period. -/
theorem valueLength_of_period (h : Lexeme.kindAt ls 0 = .period) :
    1 ≤ valueLength context first ls := by
  cases ls with
  | nil => cases h
  | cons l rest =>
    have hk : l.kind = .period := h
    have he : endsValue context first .period rest = false :=
      endsValue_other (by cases context <;> decide) (by decide) rfl
    rw [valueLength, hk, he, if_neg (by simp)]
    omega

/-- A plain value behind which enough stands ends where it did. -/
theorem valueLength_extend (h : ls'.map Lexeme.kind = ls.map Lexeme.kind ++ more)
    (hm : more = [] ∨ valueLength context first ls + margin context ≤ ls.length) :
    valueLength context first ls = valueLength context first ls' := by
  have hpos := margin_pos context
  induction ls generalizing ls' first with
  | nil =>
    have hnil : more = [] := hm.resolve_right fun hm => by
      rw [List.length_nil] at hm
      omega
    rw [hnil] at h
    rw [List.map_eq_nil_iff.mp h]
  | cons l ls ih =>
    obtain ⟨l', ls', rfl, hl, hrest⟩ := List.map_eq_cons_iff.mp h
    unfold valueLength at hm ⊢
    rw [hl]
    cases he : endsValue context first l.kind ls with
    | true => rw [if_pos rfl, if_pos (endsValue_extend hrest he)]
    | false =>
      rw [he, if_neg (by simp), List.length_cons] at hm
      have hm : more = [] ∨ valueLength context false ls + margin context ≤ ls.length :=
        hm.imp_right fun hm => by omega
      have hback (he' : endsValue context first l.kind ls' = true) :
          endsValue context first l.kind ls = true := by
        rcases hm with hnil | hm
        · have hkinds : ls.map Lexeme.kind = ls'.map Lexeme.kind ++ [] := by
            simpa [hnil] using hrest.symm
          exact endsValue_extend hkinds he'
        · refine endsValue_of_extend hrest (by omega) (fun hcontext => ?_) he'
          by_contra hn
          obtain ⟨hlen, hperiod⟩ := not_or.mp hn
          have hone := @valueLength_of_period ls context false (not_not.mp hperiod)
          rw [margin, if_pos hcontext] at hm
          omega
      have he' : endsValue context first l.kind ls' = false :=
        Bool.eq_false_iff.mpr fun he' => by simp [hback he'] at he
      rw [if_neg (by simp), he', if_neg (by simp), ih hrest hm]

end Run

/-! ## Values -/

namespace Pairing

open Production

variable {K : Pairing} {c c' : Cursor} {m r : Nat}

theorem Meets.map_kind (h : K.Meets c c') :
    c'.ahead.map Lexeme.kind = c.ahead.map Lexeme.kind ++ K.more := h.kinds

/-- So many lexemes as a value, one at least. -/
theorem steady_contentOf (K : Pairing) (count m : Nat) :
    K.Steady Draft.shape m (max count 1) (bracedValue.contentOf count) := by
  unfold bracedValue.contentOf Parsing.bracedValue.contentOf
  split
  · exact K.steady_absent .propertyValueToken m _
  · exact (K.steady_takeRun .propertyValueToken count m).weaken (by omega) (by omega)

theorem steady_bracedValue (K : Pairing) : K.Steady Draft.shape 0 3 bracedValue := by
  refine .look (by omega) (K.sees_is .leftBrace) fun _ => .ite (fun _ => ?_) fun _ => ?_
  · refine .bind (by omega) K.steady_take fun opening opening' ho c c' => ?_
    -- What is read behind the count is the count itself, and the closing brace.
    have hbody : K.Parallel Draft.shape 0 (max (Run.bracedLength 0 c.ahead) 1 + 1) c c'
        (look (fun c => Run.bracedLength 0 c.ahead) >>= fun count =>
          bracedValue.contentOf count >>= fun content => expect .rightBrace >>= fun closing =>
            pure (Draft.composite .propertyValueWithBraces [opening, content, closing]))
        (look (fun c => Run.bracedLength 0 c.ahead) >>= fun count =>
          bracedValue.contentOf count >>= fun content => expect .rightBrace >>= fun closing =>
            pure (Draft.composite .propertyValueWithBraces [opening', content, closing])) := by
      refine .look (fun hc hn => Run.bracedLength_extend hc.map_kind ?_) ?_
      · exact hn.imp K.more_eq_nil fun hn => by omega
      · refine Together.bind (by omega) (K.steady_contentOf _ 0)
          (fun content content' hcontent => ?_) c c'
        refine .bind (by omega) (K.steady_expect .rightBrace) fun closing closing' hclosing =>
          .done (by omega) ?_
        exact Draft.shape_composite_congr _ (by simp [ho, hcontent, hclosing])
    exact hbody.weaken (by omega) (by omega)
  · refine .bind (by omega) (K.steady_absent .leftBrace 0 3) fun opening opening' ho => ?_
    refine .first (.first (.done rfl ?_))
    exact Draft.shape_composite_congr _ (by simp [ho])

/-- A value up to what ends it. -/
theorem steady_value (K : Pairing) (context : Run.Context) :
    K.Steady Draft.shape (Run.margin context) 1 (value context) := by
  refine .look (by omega) (K.sees_kind.comp fun k =>
    decide (k = .leftBrace) && decide (context ≠ .evaluation)) fun _ =>
    .ite (fun _ => K.steady_bracedValue.weaken (by omega) (by omega)) fun _ c c' => ?_
  have hbody : K.Parallel Draft.shape (Run.margin context)
      (max (Run.valueLength context true c.ahead) 1) c c'
      (look (fun c => Run.valueLength context true c.ahead) >>= fun count =>
        bracedValue.contentOf count >>= fun content =>
          pure (Draft.composite .propertyValue [content]))
      (look (fun c => Run.valueLength context true c.ahead) >>= fun count =>
        bracedValue.contentOf count >>= fun content =>
          pure (Draft.composite .propertyValue [content])) := by
    refine .look (fun hc hn => Run.valueLength_extend hc.map_kind ?_) ?_
    · exact hn.imp K.more_eq_nil fun hn => by omega
    · refine Together.bind (by omega) (K.steady_contentOf _ 0)
        (fun content content' hcontent => .done (by omega) ?_) c c'
      exact Draft.shape_composite_congr _ (by simp [hcontent])
  exact hbody.weaken (by omega) (by omega)

/-! ## Rules and transitions -/

theorem steady_rule (K : Pairing) : K.Steady Draft.shape 1 4 rule := by
  refine .bind (by omega) (K.steady_qualifiedName .propertyName) fun property property' hp => ?_
  refine .bind (by omega) (K.steady_expect .colon) fun colon colon' hcolon => ?_
  refine .bind (by decide) (K.steady_value .declaration) fun content content' hcontent => ?_
  refine .bind (by omega) K.steady_qualifier fun mark mark' hmark => ?_
  refine .bind (by omega) (K.steady_expect .semicolon) fun semicolon semicolon' hs => .done rfl ?_
  exact Draft.shape_composite_congr _ (by simp [hp, hcolon, hcontent, hmark, hs])

theorem steady_transitionArguments (K : Pairing) :
    K.Steady Draft.shape 0 2 transitionArguments := by
  have hitems : K.Steady (List.map Draft.shape) 1 0 (separated .transitionArgument
      (fun c => nameStarts.contains c.kind) (takeAs .identifier)) :=
    steady_separated (by omega) (by omega) (K.sees_contains nameStarts)
      (K.steady_takeAs .identifier)
  refine .bind (by omega) (K.steady_expect .leftParen) fun opening opening' ho => ?_
  refine .bind (by omega) hitems fun items items' hi => .first ?_
  refine .bind (by omega) (K.steady_expect .rightParen) fun closing closing' hc => .done rfl ?_
  exact Draft.shape_composite_congr _ (by simp [ho, hc, Draft.shape_list hi])

theorem steady_transition (K : Pairing) : K.Steady Draft.shape 1 6 transition := by
  refine .bind (by omega) K.steady_take fun keyword keyword' hk => ?_
  refine .bind (by omega) K.steady_transitionArguments fun arguments arguments' ha => ?_
  refine .bind (by omega) (K.steady_expect .colon) fun colon colon' hcolon => ?_
  refine .bind (by decide) (K.steady_value .declaration) fun content content' hcontent => ?_
  refine .bind (by omega) K.steady_qualifier fun mark mark' hmark => ?_
  refine .bind (by omega) (K.steady_expect .semicolon) fun semicolon semicolon' hs => .done rfl ?_
  exact Draft.shape_composite_congr _ (by simp [hk, ha, hcolon, hcontent, hmark, hs])

end Pairing

end Stylesheet
