import Stylesheet.Proofs.Pairing.Loops

/-!
# Selectors side by side

Selectors ask whether a lexeme touches the one before it: a mark that may go on with a part, and a
name behind such a mark. Nothing else does.

Results:
* `Pairing.parallel_touchingName`: a name behind a mark.
* `Pairing.steady_subPart`, `Pairing.steady_selector`, `Pairing.steady_navigation`.
-/
namespace Stylesheet.Pairing

open Production

variable {K : Pairing} {c c' : Cursor}

/-! ## Parts -/

/-- Behind a mark it is the same whether a name touches it. -/
theorem parallel_touchingName (hb : ∃ l, c.behind = some l ∧ l.kind ∈ [Kind.period, .hash, .colon]) :
    K.Parallel Draft.shape 0 1 c c' touchingName touchingName := by
  refine .look (fun hc hn => ?_) (Steady.ite (fun _ => K.steady_takeAs .identifier)
    (fun _ => K.steady_absent .identifier 0 1) c c')
  have hkind : c.kind = c'.kind := K.sees_kind c c' hc (hn.imp_right fun hn => by omega)
  rw [← hkind]
  cases hname : nameStarts.contains c.kind with
  | false => rw [Bool.and_false, Bool.and_false]
  | true => rw [hc.touching (.inr ⟨contains_nameStarts c.kind ▸ hname, hb⟩)]

theorem steady_touchingMark (K : Pairing) :
    K.Steady (Option.map Draft.shape) 1 0 touchingMark := by
  have hmark : K.Sees (fun c => c.touching && decide (c.kind = .exclamationMark)) 1 :=
    K.sees_touching (s := fun k => decide (k = .exclamationMark)) fun k hk => by
      simp [of_decide_eq_true hk]
  exact .look (by omega) hmark fun _ => K.steady_take.optional.weaken (by omega) (by omega)

theorem behind_take {k : Kind} (h : c.kind = k) (he : k ≠ .eof) :
    ∃ l, (take c).rest.behind = some l ∧ l.kind = k := by
  obtain ⟨l, rest, hc, hk⟩ := Cursor.exists_ahead (h ▸ he)
  refine ⟨l, ?_, hk.trans h⟩
  rw [take_apply hc]
  simp [Cursor.advance, hc]

theorem steady_subPart (K : Pairing) : K.Steady Draft.shape 1 1 subPart := by
  intro c c'
  refine .look (fun hc hn => K.sees_kind c c' hc (hn.imp_right fun hn => by omega)) ?_
  have hmark {k : Kind} (h : c.kind = k) (he : k ≠ .eof) (hk : k ∈ [Kind.period, .hash, .colon]) :
      ∃ l, (take c).rest.behind = some l ∧ l.kind ∈ [Kind.period, .hash, .colon] := by
    obtain ⟨l, hl, hlk⟩ := behind_take h he
    exact ⟨l, hl, hlk ▸ hk⟩
  have hmarked (h : c.kind = .period ∨ c.kind = .hash) :
      K.Parallel Draft.shape 1 1 c c'
        (take >>= fun mark => touchingName >>= fun name => touchingMark >>= fun trailing =>
          pure (Draft.composite .selectorSubPart [some mark, some name, trailing]))
        (take >>= fun mark => touchingName >>= fun name => touchingMark >>= fun trailing =>
          pure (Draft.composite .selectorSubPart [some mark, some name, trailing])) := by
    refine .bind (by omega) (K.steady_take c c') fun mark' c₁' hm => ?_
    refine .bind (by omega) (parallel_touchingName ?_) fun name' c₂' hn => ?_
    · rcases h with h | h
      · exact hmark h (by decide) (by decide)
      · exact hmark h (by decide) (by decide)
    refine .bind (by omega) (K.steady_touchingMark _ _) fun trailing' c₃' ht => .done rfl ?_
    exact Draft.shape_composite_congr _ (by simp [hm, hn, ht])
  split
  · next h =>
    refine .bind (by omega) (K.steady_take c c') fun colon' c₁' hc => ?_
    refine .bind (by omega) (parallel_touchingName (hmark h (by decide) (by decide)))
      fun name' c₂' hn => .done rfl ?_
    exact Draft.shape_composite_congr _ (by simp [-Production.take_eq, hc, hn])
  · next h => exact hmarked (.inl h)
  · next h => exact hmarked (.inr h)
  · refine .bind (by omega) (K.steady_take c c') fun star' c₁' hs => ?_
    refine .bind (by omega) (K.steady_touchingMark _ _) fun trailing' c₂' ht => .done rfl ?_
    exact Draft.shape_composite_congr _ (by simp [-Production.take_eq, hs, ht])
  · refine .bind (by omega) (K.steady_expectName c c') fun name' c₁' hn => ?_
    refine .bind (by omega) (K.steady_touchingMark _ _) fun trailing' c₂' ht => .done rfl ?_
    exact Draft.shape_composite_congr _ (by simp [hn, ht])

theorem steady_selectorPart (K : Pairing) : K.Steady Draft.shape 1 1 selectorPart := by
  have htouch : K.Sees (fun c => c.touching && partMarks.contains c.kind) 1 := by
    refine K.sees_touching fun k hk => ?_
    rw [partMarks, KindSet.contains_ofList] at hk
    have hk := of_decide_eq_true hk
    simp only [List.mem_cons, List.not_mem_nil, or_false] at hk ⊢
    exact hk.imp_right fun hk => hk.imp_right .inl
  refine .bind (by omega) K.steady_subPart fun first first' hf => ?_
  refine .bind (by omega)
      (steady_many (.look (by omega) htouch fun _ => K.steady_subPart.optional))
      fun more more' hm => .first (.done rfl ?_)
  have hlist : (first :: more).map Draft.shape = (first' :: more').map Draft.shape := by simp [hf, hm]
  exact Draft.shape_composite_congr _ (by simp [Draft.shape_list hlist])

/-! ## Selectors -/

theorem steady_selector (K : Pairing) : K.Steady Draft.shape 1 0 selector := by
  have hstep : K.Steady (Option.map Draft.shape) 1 0
      (seesAny combinators >>= fun b => if b = true then some <$> take
        else seesAny partStarts >>= fun b => optional b selectorPart) :=
    .look (by omega) (K.sees_contains combinators) fun _ =>
      .ite (fun _ => (steady_some K.steady_take).weaken (by omega) (by omega)) fun _ =>
        .look (by omega) (K.sees_contains partStarts) fun _ => K.steady_selectorPart.optional
  refine .bind (by omega) (steady_many hstep) fun components components' hc => ?_
  have hdone : Draft.shape (.composite .selector [Draft.list components])
      = Draft.shape (.composite .selector [Draft.list components']) :=
    Draft.shape_composite_congr _ (by simp [Draft.shape_list hc])
  rw [Draft.isEmpty_congr hc]
  refine .ite (fun _ => ?_) fun _ => .first (.done rfl hdone)
  exact .bind (by omega) (K.steady_reportGap rfl 1 0) fun _ _ _ => .first (.done rfl hdone)

theorem steady_parenthesizedSelector (K : Pairing) :
    K.Steady Draft.shape 0 2 parenthesizedSelector := by
  refine .bind (by omega) (K.steady_expect .leftParen) fun opening opening' ho => ?_
  refine .bind (by omega) K.steady_selector fun inner inner' hi => ?_
  refine .bind (by omega) (K.steady_expect .rightParen) fun closing closing' hc => .done rfl ?_
  exact Draft.shape_composite_congr _ (by simp [ho, hi, hc])

theorem steady_indexer (K : Pairing) : K.Steady Draft.shape 0 3 indexer := by
  refine .bind (by omega) (K.steady_expect .leftBracket) fun opening opening' ho => ?_
  refine .bind (by omega) (K.steady_expect .number) fun index index' hi => ?_
  refine .bind (by omega) (K.steady_expect .rightBracket) fun closing closing' hc => .done rfl ?_
  exact Draft.shape_composite_congr _ (by simp [ho, hi, hc])

theorem steady_navigation (K : Pairing) : K.Steady Draft.shape 0 4 navigation := by
  refine .bind (by omega) (K.steady_expect .pipe) fun pipe pipe' hp => ?_
  refine .bind (by omega) (K.steady_qualifiedName .propertyName) fun property property' hn => ?_
  refine .look (by omega) (K.sees_is .leftBracket) fun _ =>
    .bind (by omega) K.steady_indexer.optional fun index index' hi => ?_
  refine .bind (by omega) (K.steady_expect .asKeyword) fun asKeyword asKeyword' ha => ?_
  refine .bind (by omega) K.steady_expectName fun type type' ht => .done rfl ?_
  exact Draft.shape_composite_congr _ (by simp [hp, hn, hi, ha, ht])

theorem steady_navigatedSelector (K : Pairing) : K.Steady Draft.shape 1 0 navigatedSelector := by
  refine .bind (by omega) K.steady_selector fun inner inner' hi => ?_
  refine .look (by omega) (K.sees_is .pipe) fun _ =>
    .bind (by omega) K.steady_navigation.optional fun path path' hp => .done rfl ?_
  exact Draft.shape_composite_congr _ (by simp [hi, hp])

end Stylesheet.Pairing
