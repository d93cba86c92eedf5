import Stylesheet.Proofs.Reading.Triggers
import Stylesheet.Sheet.Parse

/-!
# Readings of whole style sheets

Results:
* `storyboard_item`, `ruleSet_item`, `misplacedTrigger_item`: the items of a style sheet.
* `draftOf_scan`: the draft of a text is made of its items and its end.
* `draftOf_reading`: reading a whole style sheet is a reading, without a fault, up to the end.
-/
namespace Stylesheet.Production

variable {c : Cursor}

/-! ## Storyboards -/

theorem keyframe_puts (c : Cursor) :
    (keyframe c).Puts c .plain (some (keyframe c).value) (.maybe .animationKeyframe) :=
  .node (.cons (expect_puts rfl (by decide) _) <| .cons (expect_puts rfl (by decide) _) <|
    .cons (optionalName_puts _) <| .cons (bracedValue_puts _).filled <| .done _ _) trivial rfl rfl (by decide)

theorem keyframe_item (h : (KindSet.singleton .keyframeKeyword).contains c.kind) :
    Item keyframe .plain c := by
  have hk : c.kind = .keyframeKeyword := by simpa using h
  exact .of_puts (keyframe_puts c) (by decide) (by simp [Parsing.keyframe, expect_full hk (by decide)])

theorem animation_puts (c : Cursor) :
    (animation c).Puts c .plain (some (animation c).value) (.maybe .animation) :=
  .node (.cons (expect_puts rfl (by decide) _) <| .cons (qualifiedName_puts (.inl rfl) _).filled <|
    .seen <| .cons (optional_plain_puts navigation_puts _) <|
    .cons (block_puts (fun _ => keyframe_item) _).filled <| .done _ _) trivial rfl rfl (by decide)

theorem animation_item (h : (KindSet.singleton .animationKeyword).contains c.kind) :
    Item animation .plain c := by
  have hk : c.kind = .animationKeyword := by simpa using h
  exact .of_puts (animation_puts c) (by decide) (by simp [Parsing.animation, expect_full hk (by decide)])

theorem target_puts (c : Cursor) :
    (target c).Puts c .plain (some (target c).value) (.maybe .storyboardTarget) :=
  .node (.cons (expect_puts rfl (by decide) _) <| .cons (optionalName_puts _) <|
    .seen <| .cons (optional_plain_puts parenthesizedSelector_puts _) <|
    .cons (block_puts (fun _ => animation_item) _).filled <| .done _ _) trivial rfl rfl (by decide)

theorem target_item (h : (KindSet.singleton .targetKeyword).contains c.kind) :
    Item target .plain c := by
  have hk : c.kind = .targetKeyword := by simpa using h
  exact .of_puts (target_puts c) (by decide) (by simp [Parsing.target, expect_full hk (by decide)])

theorem loopBehavior_known (h : isLoopBehavior c.next.text) :
    loopBehavior c = takeAs .identifier c := by
  simp [Parsing.loopBehavior, look, h]

theorem loopBehavior_unknown (h : isLoopBehavior c.next.text = false) :
    loopBehavior c = ⟨(takeAs .identifier c).value, (takeAs .identifier c).rest,
      (Problem.unknownLoopBehavior c.next.text).reportAt c.span :: (takeAs .identifier c).reports,
      (takeAs .identifier c).faults⟩ := by
  simp [Parsing.loopBehavior, look, report, h]

theorem loopBehavior_puts (h : c.kind.isName) :
    (loopBehavior c).Puts c .loopBehavior (some (loopBehavior c).value) (.maybe .identifier) := by
  cases hb : isLoopBehavior c.next.text with
  | true =>
    rw [loopBehavior_known hb]
    exact takeName_puts h ⟨hb, rfl⟩
  | false =>
    obtain ⟨l, rest, hc, hk⟩ := Cursor.exists_ahead (ne_eof_of_isName h)
    have hpass := Cursor.passes_one hc
    rw [loopBehavior_unknown hb, takeAs_apply .identifier hc, hpass.next_eq]
    rw [hpass.next_eq] at hb
    exact ⟨⟨.unknownLoop hpass (takes_name (hk ▸ h)) hb, rfl⟩, by simp [SlotRule.maybe, SlotRule.Allows]⟩

theorem storyboard_puts (c : Cursor) :
    (storyboard c).Puts c .item (some (storyboard c).value) (.maybe .storyboard) := by
  have hloop (c : Cursor) : (optional (nameStarts.contains c.kind) loopBehavior c).Puts c
      .loopBehavior (optional (nameStarts.contains c.kind) loopBehavior c).value
      (.maybe .identifier) :=
    optional_puts (by simp) rfl fun h => loopBehavior_puts (contains_nameStarts _ ▸ h)
  exact .node (.cons (expect_puts rfl (by decide) _) <| .cons (expectName_puts _) <|
    .seen <| .cons (hloop _) <| .cons (block_puts (fun _ => target_item) _).filled <|
    .done _ _) rfl rfl rfl (by decide)

theorem storyboard_item (h : c.kind = .atSign) : Item storyboard .item c :=
  .of_puts (storyboard_puts c) (by decide) (by simp [Parsing.storyboard, expect_full h (by decide)])

/-! ## Rule sets -/

theorem ruleSetItem_trigger (h : c.kind = .triggerKeyword) : ruleSetItem c = trigger c := by
  simp [Parsing.ruleSetItem, look, h]

theorem ruleSetItem_transition (h : c.kind = .transitionKeyword) (hn : c.kindAt 1 = .leftParen) :
    ruleSetItem c = transition c := by
  simp [Parsing.ruleSetItem, look, holds, h, hn]

theorem ruleSetItem_rule (h : c.kind ≠ .triggerKeyword)
    (hn : ¬(c.kind = .transitionKeyword ∧ c.kindAt 1 = .leftParen)) : ruleSetItem c = rule c := by
  by_cases ht : c.kind = .transitionKeyword
  · simp [Parsing.ruleSetItem, look, holds, ht, show c.kindAt 1 ≠ .leftParen from fun he => hn ⟨ht, he⟩]
  · rw [ruleSetItem, Parsing.ruleSetItem, look_first]
    generalize c.kind = k at h ht
    cases k <;> first | contradiction | rfl

theorem Item.congr {p q : Production Draft} {role : SlotRole} (h : p c = q c)
    (hq : Item q role c) : Item p role c :=
  ⟨h ▸ hq.fills, h ▸ hq.proper, h ▸ hq.full⟩

theorem ruleSetItem_item (h : nameStarts.contains c.kind) : Item ruleSetItem .plain c := by
  rw [contains_nameStarts] at h
  by_cases ht : c.kind = .triggerKeyword
  · exact (trigger_item ht).congr (ruleSetItem_trigger ht)
  by_cases hn : c.kind = .transitionKeyword ∧ c.kindAt 1 = .leftParen
  · exact (transition_item hn.1).congr (ruleSetItem_transition hn.1 hn.2)
  · exact (rule_item h).congr (ruleSetItem_rule ht hn)

theorem ruleSet_item (h : partStarts.contains c.kind) : Item ruleSet .item c := by
  have hselectors := @separated_one_puts .selector (fun c => partStarts.contains c.kind)
    navigatedSelector c (fun _ => navigatedSelector_item) h
  have hputs : (ruleSet c).Puts c .item (some (ruleSet c).value) (.maybe .ruleSet) :=
    .node (.cons hselectors <| .cons (block_puts (fun _ => ruleSetItem_item) _).filled <|
      .done _ _) rfl rfl rfl (by decide)
  refine .of_puts hputs (by decide) ?_
  rw [show (ruleSet c).value = Draft.composite .ruleSet _ from rfl, Draft.lexemes_composite]
  exact separated_full (fun _ => navigatedSelector_item) h _

/-! ## Items -/

theorem misplacedTrigger_item (h : c.kind = .triggerKeyword) : Item misplacedTrigger .item c := by
  obtain ⟨kind, hk, rest, hvalue, hrow⟩ := trigger_row c
  obtain ⟨l, more, hc, hl⟩ := Cursor.exists_ahead (c := c) (by simp [h])
  have hfirst : (expect .triggerKeyword c).value = .single .triggerKeyword l := by
    rw [expect_of_kind h, take_apply hc, hl, h]
  rw [hfirst] at hvalue hrow
  have hx : misplacedTrigger c = ⟨(trigger c).value, (trigger c).rest,
      Problem.misplacedTrigger.reportAt c.span :: (trigger c).reports, (trigger c).faults⟩ := by
    simp [Parsing.misplacedTrigger, report]
  have hconf : Conforms kind (some (.single .triggerKeyword l) :: rest) := by
    simpa [Conforms] using hrow.allowed
  refine ⟨?_, ?_, ?_⟩
  · rw [hx]
    refine ⟨?_, hrow.faultless⟩
    rw [hvalue]
    exact .misplaced hrow.reading hk hconf
  · rw [hx, hvalue]
    rcases Kind.isTrigger_iff.mp hk with rfl | rfl <;> simp
  · rw [hx]
    exact trigger_full h

theorem item_trigger (h : c.kind = .triggerKeyword) : item c = misplacedTrigger c := by
  simp [Parsing.item, look, h]

theorem item_storyboard (h : c.kind = .atSign) : item c = storyboard c := by
  simp [Parsing.item, look, h]

theorem item_other (ht : c.kind ≠ .triggerKeyword) (ha : c.kind ≠ .atSign) :
    item c = (if partStarts.contains c.kind then ruleSet else unexpected itemStarts) c := by
  have hx : item c = (seesAny partStarts >>= fun b =>
      if b = true then ruleSet else unexpected itemStarts : Production Draft) c := by
    rw [item, Parsing.item, look_first]
    generalize c.kind = k at ht ha
    cases k <;> first | contradiction | rfl
  rw [hx]
  rfl

theorem item_item (h : c.kind ≠ .eof) : Item item .item c := by
  by_cases ht : c.kind = .triggerKeyword
  · exact (misplacedTrigger_item ht).congr (item_trigger ht)
  by_cases ha : c.kind = .atSign
  · exact (storyboard_item ha).congr (item_storyboard ha)
  have hother := item_other ht ha
  by_cases hp : partStarts.contains c.kind
  · rw [if_pos hp] at hother
    exact (ruleSet_item hp).congr hother
  · rw [if_neg hp] at hother
    exact (unexpected_item h (.inr rfl)).congr hother

/-! ## Documents -/

/-- One step of the loop of a style sheet. -/
def documentStep : Production (Option Draft) := do
  if ← sees .eof then return none else some <$> item

theorem documentStep_apply (c : Cursor) :
    documentStep c = if c.kind = .eof then ⟨none, c, [], []⟩ else (some <$> item) c := by
  by_cases h : c.kind = .eof <;> simp [documentStep, sees, holds, look, h]

theorem documentStep_steps : Steps documentStep .item := by
  intro c
  rw [documentStep_apply]
  by_cases h : c.kind = .eof
  · exact .inl (if_pos h)
  · exact .inr ⟨item, if_neg h, item_item h⟩

/-- The items of a style sheet go up to its end. -/
theorem many_documentStep_kind (c : Cursor) : (many documentStep c).rest.kind = .eof := by
  have hstop := many_stops documentStep_steps c
  rw [documentStep_apply] at hstop
  by_contra hk
  rw [if_neg hk, map_apply] at hstop
  cases congrArg Outcome.value hstop

theorem document_apply (c : Cursor) :
    document c = let items := many documentStep c
      ⟨[Draft.list items.value, Draft.single .eof items.rest.final], items.rest, items.reports,
        items.faults⟩ := by
  show ((many documentStep >>= fun items => look (·.final) >>= fun final =>
    pure [Draft.list items, some (Draft.single .eof final)]) : Production (List (Option Draft))) c = _
  rw [many_bind_apply]
  simp [look]

end Stylesheet.Production

namespace Stylesheet

open Production

/-- What the loop over a style sheet's items makes. -/
def itemsOf (text : Text) : Outcome (List Draft) :=
  many documentStep (Cursor.ofLexemes (Lexemes.scan text))

/-- The final lexeme of a text as a draft. -/
def endOf (text : Text) : Draft := Draft.single .eof (Lexemes.scan text).final

theorem final_itemsOf (text : Text) : (itemsOf text).rest.final = (Lexemes.scan text).final :=
  (many_fills documentStep_steps (.ofLexemes (Lexemes.scan text))).reading.passes.final

/-- The draft of a text: its items, and its end. -/
theorem draftOf_scan (text : Text) :
    draftOf (Lexemes.scan text) = ⟨[Draft.list (itemsOf text).value, some (endOf text)],
      (itemsOf text).rest, (itemsOf text).reports, (itemsOf text).faults⟩ := by
  rw [endOf, ← final_itemsOf]
  exact document_apply _

/-- A style sheet is read without a fault, up to its end: its items fill the first of its two
slots, and the final lexeme the second. -/
theorem draftOf_reading (ls : Lexemes) :
    ∃ items, (draftOf ls).value = [Draft.list items, some (Draft.single .eof ls.final)] ∧
      (draftOf ls).Puts (.ofLexemes ls) .item (Draft.list items) (.maybe .list) ∧
      (draftOf ls).rest.kind = .eof ∧ (draftOf ls).rest.final = ls.final := by
  have hfill := many_fills documentStep_steps (.ofLexemes ls)
  have hputs := @list_puts _ _ _ .item _ hfill (by simp) (by simp)
    (many_proper documentStep_steps _)
  have hfinal := hfill.reading.passes.final
  rw [draftOf, document_apply]
  refine ⟨_, ?_, ⟨⟨hputs.reading, hputs.faultless⟩, hputs.allowed⟩, many_documentStep_kind _, hfinal⟩
  simp only [hfinal]
  rfl

theorem faults_itemsOf (text : Text) : (itemsOf text).faults = [] := by
  obtain ⟨_, -, hputs, -, -⟩ := draftOf_reading (Lexemes.scan text)
  have h := hputs.faultless
  rwa [draftOf_scan] at h

end Stylesheet
