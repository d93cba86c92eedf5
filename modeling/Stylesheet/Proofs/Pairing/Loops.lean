import Stylesheet.Proofs.Pairing.Pieces
import Stylesheet.Proofs.Reading.Loops

/-!
# Loops side by side

Results:
* `Pairing.steady_many`: a loop does the same if its step does; so many steps are made in both
  texts.
* `Pairing.steady_unexpected`, `Pairing.steady_block`, `Pairing.steady_separated`.
-/
namespace Stylesheet

namespace Pairing

open Production

variable {K : Pairing} {c c' : Cursor} {m r n k : Nat} {α β : Type} {view : α → β}

/-! ## The loop -/

section Many

variable {step : Production (Option α)}

theorem not_good_idle {v : List α} {r : List Diagnostic} {fs : List Fault} :
    ¬Outcome.Good ⟨v, c, r, fs ++ [.idleStep]⟩ :=
  fun hg => List.append_ne_nil_of_right_ne_nil fs (List.cons_ne_nil _ _) hg.faultless

/-- A loop reads on. -/
theorem reads_many (hs : K.Steady (Option.map view) m 0 step) (c : Cursor) (hg : (many step c).Good) :
    (many step c).rest.ahead.length ≤ c.ahead.length := by
  fun_induction many step c with
  | case1 c first hn => exact (hs c c).reads ⟨hg.clean, hg.faultless⟩
  | case2 c first a ha hlt tail ih =>
    obtain ⟨-, htail⟩ := Outcome.good_append.mp hg
    have hle : tail.rest.ahead.length ≤ first.rest.ahead.length := ih htail
    exact hle.trans hlt.le
  | case3 c first a ha hlt => exact absurd hg not_good_idle

/-- Where one text goes on, the other one does. -/
theorem Meets.goesOn {d d' : Cursor} (h : K.Meets c c') (hd : K.Meets d d') :
    d.ahead.length < c.ahead.length ↔ d'.ahead.length < c'.ahead.length := by
  rw [h.length, hd.length]
  omega

theorem map_eq_some {a : α} {o o' : Option α} (h : o.map view = o'.map view) (ho : o = some a) :
    ∃ a', o' = some a' ∧ view a = view a' := by
  subst ho
  obtain ⟨a', ha', hview⟩ := Option.map_eq_some_iff.mp h.symm
  exact ⟨a', ha', hview.symm⟩

theorem same_many (hs : K.Steady (Option.map view) m 0 step) (c c' : Cursor) (hc : K.Meets c c')
    (hg : K.Whole ∨ (many step c).Good ∧ m ≤ (many step c).rest.ahead.length) :
    K.Same (List.map view) (many step c) (many step c') := by
  -- Along the loop in the first text. Where it goes on, so does the second one: both steps stop at
  -- the same lexeme, so both got on or neither did.
  fun_induction many step c generalizing c' with
  | case1 c first hn =>
    obtain ⟨hvalue, hrest, hreports⟩ := (hs c c').same hc
      (hg.imp_right fun hg => ⟨⟨hg.1.clean, hg.1.faultless⟩, hg.2⟩)
    have hn' : (step c').value = none := by
      have hfirst : (step c).value = none := hn
      rw [hfirst] at hvalue
      simpa using hvalue.symm
    rw [many_of_none hn']
    exact ⟨rfl, hrest, hreports⟩
  | case2 c first a ha hlt tail ih =>
    have hstep : K.Whole ∨ (step c).Good ∧ m ≤ (step c).rest.ahead.length := hg.imp_right fun hg => by
      obtain ⟨hfirst, htail⟩ := Outcome.good_append.mp hg.1
      have hreads := reads_many hs first.rest htail
      have hlen : m ≤ tail.rest.ahead.length := hg.2
      exact ⟨hfirst, hlen.trans hreads⟩
    obtain ⟨hvalue, hrest, hreports⟩ := (hs c c').same hc hstep
    obtain ⟨a', ha', hview⟩ := map_eq_some hvalue ha
    have htail := ih (step c').rest hrest
      (hg.imp_right fun hg => ⟨(Outcome.good_append.mp hg.1).2, hg.2⟩)
    rw [many_of_some ha' ((hc.goesOn hrest).mp hlt)]
    exact ⟨by simp [hview, htail.value, tail, first], htail.rest,
      K.alike_append hreports htail.reports⟩
  | case3 c first a ha hlt =>
    have hw : K.Whole := hg.resolve_right fun hg => not_good_idle hg.1
    obtain ⟨hvalue, hrest, hreports⟩ := (hs c c').same hc (.inl hw)
    obtain ⟨a', ha', hview⟩ := map_eq_some hvalue ha
    rw [many_of_idle ha' (mt (hc.goesOn hrest).mpr hlt)]
    exact ⟨by simp [hview], hrest, hreports⟩

theorem steady_many (hs : K.Steady (Option.map view) m 0 step) :
    K.Steady (List.map view) m 0 (many step) :=
  fun c c' => ⟨reads_many hs c, same_many hs c c'⟩

end Many

/-! ## What fits nowhere -/

theorem unexpectedLength_congr {ls ls' : List Lexeme} (h : ls.map Lexeme.kind = ls'.map Lexeme.kind)
    (starts : KindSet) (first : Bool) (depth : Nat) :
    Run.unexpectedLength starts first depth ls = Run.unexpectedLength starts first depth ls' := by
  induction ls generalizing ls' first depth with
  | nil => rw [List.map_eq_nil_iff.mp h.symm]
  | cons l ls ih =>
    obtain ⟨l', ls', rfl, hl, hrest⟩ := List.map_eq_cons_iff.mp h.symm
    have ih := fun first depth => ih hrest.symm first depth
    cases depth with
    | zero => simp only [Run.unexpectedLength, hl, ih]
    | succ depth => simp only [Run.unexpectedLength, hl, ih]

/-- One piece for each lexeme. -/
theorem steady_takeEach (hw : K.Whole) (count : Nat) :
    K.Steady (List.map Draft.shape) 0 0 (takeEach count) := by
  intro c c'
  refine ⟨fun _ => ?_, fun hc _ => ⟨?_, hc.advance (.inl hw), K.alike_nil⟩⟩
  · show (c.advance count).ahead.length ≤ c.ahead.length
    rw [Cursor.length_advance]
    omega
  · have hkinds : c.kinds = c'.kinds := by
      rw [hc.kinds, K.more_eq_nil hw, List.append_nil]
    have hshapes (c : Cursor) : (takeEach count c).value.map Draft.shape
        = (c.kinds.take count).map fun k => .token (k, 1) := by
      simp only [takeEach, Cursor.kinds, ← List.map_take, List.map_map]
      rfl
    rw [hshapes, hshapes, hkinds]

theorem steady_unexpected (K : Pairing) (starts : KindSet) (h : 1 ≤ m + r) :
    K.Steady Draft.shape m r (unexpected starts) := by
  refine .look h K.sees_kind fun kind => K.together_report (k := 0) (j := 0) rfl fun hw => ?_
  -- Behind the report only texts that end together count; in them as much is skipped.
  have hskipped : K.Steady Draft.shape 0 0 (do
      let skipped ← takeEach (← look fun c => Run.unexpectedLength starts true 0 c.ahead)
      return .composite .error (skipped.map some)) := by
    refine fun c c' => .look (fun hc _ => unexpectedLength_congr ?_ starts true 0) ?_
    · have hkinds := hc.kinds
      rw [K.more_eq_nil hw, List.append_nil] at hkinds
      exact hkinds.symm
    · refine .bind (by omega) (steady_takeEach hw _ c c') fun skipped _ hs => .done rfl ?_
      exact Draft.shape_composite_congr .error (by
        simpa [List.map_map, Function.comp_def] using congrArg (List.map some) hs)
  exact hskipped

/-! ## Blocks -/

section Block

variable {starts : KindSet} {item : Production Draft}

theorem steady_some {p : Production α} (h : K.Steady view m r p) :
    K.Steady (Option.map view) m r (some <$> p) :=
  fun c c' => (h c c').map fun a a' he => by simp [he]

theorem steady_blockStep (hi : K.Steady Draft.shape 1 0 item) :
    K.Steady (Option.map Draft.shape) 1 0 (blockStep starts item) := by
  refine .look (by omega) (K.sees_is .rightBrace) fun closes => ?_
  refine .look (by omega) (K.sees_is .eof) fun ends => ?_
  refine .ite (fun _ _ _ => .done rfl rfl) fun _ => ?_
  refine .look (by omega) (K.sees_contains starts) fun _ => .ite (fun _ => steady_some hi) fun _ => ?_
  exact steady_some (K.steady_unexpected starts (by omega))

/-- Items in braces. -/
theorem steady_block (hk : k ≤ 1) (hi : K.Steady Draft.shape k r item) :
    K.Steady Draft.shape 0 2 (block starts item) := by
  have hstep : K.Steady (Option.map Draft.shape) 1 0 (blockStep starts item) :=
    steady_blockStep (hi.weaken hk (Nat.zero_le r))
  refine .look (by omega) (K.sees_is .leftBrace) fun _ => .ite (fun _ => ?_) fun _ => ?_
  · refine .bind (by omega) K.steady_take fun opening opening' ho => ?_
    refine .bind (by omega) (steady_many hstep) fun items items' hitems => ?_
    refine .first (.bind (by omega) (K.steady_expect .rightBrace) fun closing closing' hc => ?_)
    refine .done rfl ?_
    exact Draft.shape_composite_congr .block (by simp [ho, hc, Draft.shape_list hitems])
  · refine .bind (by omega) (K.steady_absent .leftBrace 0 2) fun opening opening' ho => ?_
    refine .first (.done rfl ?_)
    exact Draft.shape_composite_congr .block (by simp [ho])

end Block

/-! ## Separated lists -/

section Separated

variable {listed : Listed} {starts : Cursor → Bool} {item : Production Draft}

theorem steady_separatedStep (hv : K.Sees starts 1) (hi : K.Steady Draft.shape m 0 item)
    (hm : 1 ≤ m) :
    K.Steady (Option.map (List.map Draft.shape)) m 0 (separatedStep listed starts item) := by
  refine .look (by omega) hv fun _ => .ite (fun _ => ?_) fun _ _ _ => .done rfl rfl
  refine .bind (by omega) hi fun first first' hfirst => ?_
  refine .look (by omega) (K.sees_is .comma) fun _ => .ite (fun _ => ?_) fun _ => ?_
  · refine .bind (by omega) K.steady_take fun comma comma' hcomma => ?_
    refine .look (by omega) hv fun more => ?_
    cases more with
    | false =>
      exact K.together_report (k := 0) (j := 0) rfl fun _ =>
        .done rfl (by simp [hfirst, hcomma])
    | true => exact .done rfl (by simp [hfirst, hcomma])
  · refine .look (by omega) hv fun _ => .ite (fun _ => ?_) fun _ => .done rfl (by simp [hfirst])
    exact .bind (by omega) (K.steady_absent .comma m 0) fun comma comma' hcomma =>
      .done rfl (by simp [hfirst, hcomma])

theorem steady_separated (hk : k ≤ m) (hm : 1 ≤ m) (hv : K.Sees starts 1)
    (hi : K.Steady Draft.shape k r item) :
    K.Steady (List.map Draft.shape) m 0 (separated listed starts item) := by
  have hstep : K.Steady (Option.map (List.map Draft.shape)) m 0 (separatedStep listed starts item) :=
    steady_separatedStep hv (hi.weaken hk (Nat.zero_le r)) hm
  refine .bind (by omega) (steady_many hstep) fun groups groups' hg => .done rfl ?_
  rw [List.map_flatten, List.map_flatten, hg]

end Separated

end Pairing

end Stylesheet
