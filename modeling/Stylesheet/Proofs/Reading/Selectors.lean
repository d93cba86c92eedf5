import Stylesheet.Proofs.Reading.Loops

/-!
# Readings of selectors

Results:
* `subPart_puts`, `selectorPart_puts`, `selector_puts`: a selector, from its parts up. Without a
  component its list is empty, and that is reported.
* `navigation_puts`, `parenthesizedSelector_puts`, `navigatedSelector_puts`.
* `subPart_item`, `selectorPart_item`, `navigatedSelector_item`: where they start, they read.
-/
namespace Stylesheet.Production

variable {c : Cursor}

theorem contains_partStarts (k : Kind) :
    partStarts.contains k = (k ∈ [Kind.period, .hash, .asterisk, .colon] || k.isName) := by
  rw [partStarts, KindSet.contains_union, KindSet.contains_ofList, contains_nameStarts]

theorem contains_partMarks (k : Kind) :
    partMarks.contains k = decide (k ∈ [Kind.period, .hash, .colon]) := by
  rw [partMarks, KindSet.contains_ofList]

theorem contains_combinators (k : Kind) :
    combinators.contains k
      = decide (k ∈ [Kind.greaterThan, .greaterThanGreaterThan, .greaterThanQuestionMark]) := by
  rw [combinators, KindSet.contains_ofList]

/-! ## Parts -/

theorem touchingName_puts (c : Cursor) :
    (touchingName c).Puts c .plain (some (touchingName c).value) (.one .identifier) := by
  by_cases h : c.touching ∧ nameStarts.contains c.kind
  · have hx : touchingName c = takeAs .identifier c := by
      simp [Parsing.touchingName, holds, look, h]
    rw [hx]
    exact (takeName_puts (contains_nameStarts _ ▸ h.2) (SlotRole.admits_plain ..)).filled
  · have hx : touchingName c = absent .identifier c := by
      simp [Parsing.touchingName, holds, look, h]
    rw [hx]
    exact absent_puts rfl (by simp) c

theorem touchingMark_puts (c : Cursor) :
    (touchingMark c).Puts c .plain (touchingMark c).value (.maybe .exclamationMark) := by
  have hx : touchingMark c
      = optional (c.touching && decide (c.kind = .exclamationMark)) take c := rfl
  rw [hx]
  refine optional_puts (by simp) rfl fun h => ?_
  have h : c.kind = .exclamationMark := of_decide_eq_true (Bool.and_eq_true_iff.mp h).2
  exact h ▸ take_puts (by simp [h]) (SlotRole.admits_plain ..)

theorem subPart_colon (h : c.kind = .colon) :
    subPart c = (do
      let colon ← take
      let name ← touchingName
      return Draft.composite .pseudoClass [colon, name] : Production Draft) c := by
  simp [Parsing.subPart, look, h]

theorem subPart_mark (h : c.kind = .period ∨ c.kind = .hash) :
    subPart c = (do
      let mark ← take
      let name ← touchingName
      let trailing ← touchingMark
      return Draft.composite .selectorSubPart [mark, name, trailing] : Production Draft) c := by
  rcases h with h | h <;> simp [Parsing.subPart, look, h]

theorem subPart_asterisk (h : c.kind = .asterisk) :
    subPart c = (do
      let star ← take
      let trailing ← touchingMark
      return Draft.composite .selectorSubPart [none, star, trailing] : Production Draft) c := by
  simp [Parsing.subPart, look, h]

theorem subPart_name (hp : c.kind ≠ .period) (hh : c.kind ≠ .hash) (ha : c.kind ≠ .asterisk)
    (hc : c.kind ≠ .colon) :
    subPart c = (do
      let name ← expectName
      let trailing ← touchingMark
      return Draft.composite .selectorSubPart [none, name, trailing] : Production Draft) c := by
  rw [subPart, Parsing.subPart, look_first]
  generalize c.kind = k at hp hh ha hc
  cases k <;> first | contradiction | rfl

/-- What a part is made of. -/
def subPartRule : SlotRule := ⟨[.selectorSubPart, .pseudoClass], false, true⟩

theorem subPart_puts (c : Cursor) :
    (subPart c).Puts c .plain (some (subPart c).value) subPartRule := by
  by_cases hcolon : c.kind = .colon
  · have hmark := takeKind_puts hcolon (by decide)
    rw [subPart_colon hcolon]
    exact .node (.cons hmark.filled <| .cons (touchingName_puts _) <| .done _ _) trivial rfl rfl (by decide)
  by_cases hmarked : c.kind = .period ∨ c.kind = .hash
  · have hmark : (take c).Puts c .plain (some (take c).value) ⟨[.period, .hash], true, false⟩ := by
      rcases hmarked with h | h
      · exact (takeKind_puts h (by decide)).widen (by decide) (fun h => h)
      · exact (takeKind_puts h (by decide)).widen (by decide) (fun h => h)
    rw [subPart_mark hmarked]
    exact .node (.cons hmark <| .cons ((touchingName_puts _).widen (by decide) (fun _ => rfl)) <|
      .cons (touchingMark_puts _) <| .done _ _) trivial rfl rfl (by decide)
  by_cases hstar : c.kind = .asterisk
  · have hmark := takeKind_puts hstar (by decide)
    rw [subPart_asterisk hstar]
    exact .node (.skip (.cons (hmark.widen (by decide) (fun _ => rfl)) <|
      .cons (touchingMark_puts _) <| .done _ _) rfl) trivial rfl rfl (by decide)
  · obtain ⟨hperiod, hhash⟩ := not_or.mp hmarked
    rw [subPart_name hperiod hhash hstar hcolon]
    exact .node (.skip (.cons ((expectName_puts c).widen (by decide) (fun _ => rfl)) <|
      .cons (touchingMark_puts _) <| .done _ _) rfl) trivial rfl rfl (by decide)

theorem subPart_full (h : partStarts.contains c.kind) : (subPart c).value.lexemes ≠ [] := by
  by_cases hcolon : c.kind = .colon
  · rw [subPart_colon hcolon]
    simp [take_full (c := c) (by simp [hcolon])]
  by_cases hmarked : c.kind = .period ∨ c.kind = .hash
  · rw [subPart_mark hmarked]
    simp [take_full (c := c) (by rcases hmarked with h | h <;> simp [h])]
  by_cases hstar : c.kind = .asterisk
  · rw [subPart_asterisk hstar]
    simp [take_full (c := c) (by simp [hstar])]
  · have hn : c.kind.isName := by simpa [contains_partStarts, hcolon, hstar, not_or.mp hmarked] using h
    obtain ⟨hperiod, hhash⟩ := not_or.mp hmarked
    rw [subPart_name hperiod hhash hstar hcolon]
    simp [expectName_full hn]

theorem subPart_item (h : partStarts.contains c.kind) : Item subPart .plain c :=
  .of_puts (subPart_puts c) (by decide) (subPart_full h)

/-- One step of the loop of a part. -/
def partStep : Production (Option Draft) := do
  optional (← holds fun c => c.touching && partMarks.contains c.kind) subPart

theorem partStarts_of_partMarks {k : Kind} (h : partMarks.contains k) : partStarts.contains k := by
  rw [contains_partMarks] at h
  rw [contains_partStarts]
  simp at h ⊢
  tauto

theorem partStep_steps : Steps partStep .plain :=
  optional_steps fun _ h => subPart_item (partStarts_of_partMarks (Bool.and_eq_true_iff.mp h).2)

theorem selectorPart_apply (c : Cursor) :
    selectorPart c = let more := many partStep (subPart c).rest
      ⟨.composite .selectorPart [Draft.list ((subPart c).value :: more.value)], more.rest,
        (subPart c).reports ++ more.reports, (subPart c).faults ++ more.faults⟩ := by
  simp [Parsing.selectorPart, partStep]

theorem selectorPart_puts (c : Cursor) :
    (selectorPart c).Puts c .plain (some (selectorPart c).value) (.maybe .selectorPart) := by
  have hall := (subPart_puts c).toFills.append (many_fills partStep_steps (subPart c).rest) (v := ())
  have hlist := @list_puts _ _ _ .plain ((subPart c).value :: (many partStep (subPart c).rest).value)
    hall (by simp) (by simp) (by
      simpa using ⟨fun he => absurd (he ▸ (subPart_puts c).allowed.1) (by decide),
        many_proper partStep_steps _⟩)
  rw [selectorPart_apply]
  exact .node (.only hlist.filled) trivial rfl rfl (by decide)

theorem selectorPart_full (h : partStarts.contains c.kind) :
    (selectorPart c).value.lexemes ≠ [] := by
  rw [selectorPart_apply]
  simp [subPart_full h]

theorem selectorPart_item (h : partStarts.contains c.kind) : Item selectorPart .plain c :=
  .of_puts (selectorPart_puts c) (by decide) (selectorPart_full h)

/-! ## Selectors -/

/-- One step of the loop of a selector. -/
def componentStep : Production (Option Draft) := do
  if ← seesAny combinators then some <$> take
  else optional (← seesAny partStarts) selectorPart

theorem componentStep_apply (c : Cursor) :
    componentStep c
      = if combinators.contains c.kind then (some <$> take) c
        else if partStarts.contains c.kind then (some <$> selectorPart) c
        else ⟨none, c, [], []⟩ := by
  by_cases h : combinators.contains c.kind
  · simp [componentStep, seesAny, holds, look, h]
  · by_cases hp : partStarts.contains c.kind
    · simp [componentStep, seesAny, holds, look, h, hp, optional_true]
    · simp [componentStep, seesAny, holds, look, h, hp, optional_false]

theorem combinator_item (h : combinators.contains c.kind) : Item take .plain c := by
  have he : c.kind ≠ .eof := by
    rintro hk
    simp [contains_combinators, hk] at h
  refine .of_puts (take_puts he (SlotRole.admits_plain ..)) ?_ (take_full he)
  rintro hk
  simp [SlotRule.maybe] at hk
  simp [contains_combinators, ← hk] at h

theorem componentStep_steps : Steps componentStep .plain := by
  intro c
  rw [componentStep_apply]
  by_cases h : combinators.contains c.kind
  · exact .inr ⟨take, if_pos h, combinator_item h⟩
  by_cases hp : partStarts.contains c.kind
  · exact .inr ⟨selectorPart, by rw [if_neg h, if_pos hp], selectorPart_item hp⟩
  · exact .inl (by rw [if_neg h, if_neg hp])

theorem selector_apply (c : Cursor) :
    selector c = let components := many componentStep c
      ⟨.composite .selector [Draft.list components.value], components.rest,
        components.reports ++ if components.value.isEmpty then
          [Problem.expectedSelector.reportAt components.rest.gap] else [],
        components.faults⟩ := by
  show ((many componentStep >>= fun components => (if components.isEmpty = true then
    reportGap .expectedSelector >>= fun _ => pure (Draft.composite .selector [Draft.list components])
    else pure (Draft.composite .selector [Draft.list components]) : Production Draft)) :
      Production Draft) c = _
  rw [many_bind_apply]
  cases h : (many componentStep c).value.isEmpty <;> simp [h, reportGap]

theorem selector_puts (c : Cursor) :
    (selector c).Puts c .plain (some (selector c).value) (.maybe .selector) := by
  have hfill := many_fills componentStep_steps c
  have hneeded := @needed_puts _ _ _ (many componentStep c).value .expectedSelector rfl
    (fun h => by rwa [h] at hfill)
    (fun h => list_puts hfill (by simp) (fun _ => h) (many_proper componentStep_steps c))
    (many componentStep c).value
  rw [selector_apply]
  exact .node (.only hneeded) trivial rfl rfl (by decide)

/-- Where a part can start, the loop of a selector reads one. -/
theorem componentStep_of_partStarts (h : partStarts.contains c.kind) :
    componentStep c = (some <$> selectorPart) c := by
  rw [componentStep_apply, if_neg ?_, if_pos h]
  rw [contains_partStarts] at h
  rw [contains_combinators]
  generalize c.kind = k at h
  revert h
  cases k <;> decide

theorem selector_full (h : partStarts.contains c.kind) : (selector c).value.lexemes ≠ [] := by
  have hvalue : (componentStep c).value = some (selectorPart c).value := by
    rw [componentStep_of_partStarts h, map_apply]
  have hlt := (componentStep_steps.goesOn hvalue).2.2
  rw [selector_apply, many_of_some hvalue hlt]
  simp [selectorPart_full h]

theorem parenthesizedSelector_puts (c : Cursor) :
    (parenthesizedSelector c).Puts c .plain (some (parenthesizedSelector c).value)
      (.maybe .selectorWithParentheses) :=
  .node (.cons (expect_puts rfl (by decide) _) <| .cons (selector_puts _).filled <|
    .cons (expect_puts rfl (by decide) _) <| .done _ _) trivial rfl rfl (by decide)

/-! ## Navigation -/

theorem indexer_puts (c : Cursor) :
    (indexer c).Puts c .plain (some (indexer c).value) (.maybe .navigationExpressionIndexer) :=
  .node (.cons (expect_puts rfl (by decide) _) <| .cons (expect_puts rfl (by decide) _) <|
    .cons (expect_puts rfl (by decide) _) <| .done _ _) trivial rfl rfl (by decide)

theorem navigation_puts (c : Cursor) :
    (navigation c).Puts c .plain (some (navigation c).value) (.maybe .navigationExpression) :=
  .node (.cons (expect_puts rfl (by decide) _) <| .cons (qualifiedName_puts (.inl rfl) _).filled <|
    .seen <| .cons (optional_plain_puts indexer_puts _) <|
    .cons (expect_puts rfl (by decide) _) <| .cons (expectName_puts _) <| .done _ _) trivial rfl rfl (by decide)

theorem navigatedSelector_puts (c : Cursor) :
    (navigatedSelector c).Puts c .plain (some (navigatedSelector c).value)
      (.maybe .selectorWithNavigationExpression) :=
  .node (.cons (selector_puts _).filled <| .seen <|
    .cons (optional_plain_puts navigation_puts _) <| .done _ _) trivial rfl rfl (by decide)

theorem navigatedSelector_item (h : partStarts.contains c.kind) :
    Item navigatedSelector .plain c :=
  .of_puts (navigatedSelector_puts c) (by decide) (by simp [Parsing.navigatedSelector, selector_full h])

end Stylesheet.Production
