import Stylesheet.Proofs.Reading.Declarations
import Stylesheet.Proofs.Reading.Selectors

/-!
# Readings of triggers

Results:
* `action_item`: an action where it starts.
* `evaluations_puts`: the evaluations of a property trigger, or the report that there are none.
* `eventArgument_item`: an argument of an event, known or reported.
* `trigger_row`: a trigger of either sort, its keyword in the first slot.
-/
namespace Stylesheet.Production

variable {c : Cursor}

/-! ## Actions -/

theorem actionSelector_puts (c : Cursor) :
    (actionSelector c).Puts c .plain (actionSelector c).value (.maybe .selectorWithParentheses) :=
  @optional_plain_puts (decide (c.kind = .leftParen)) _ _ parenthesizedSelector_puts c

theorem action_playStoryboard (h : c.kind = .playStoryboardKeyword) :
    action c = (do
      let keyword ← take
      let target ← actionSelector
      let content ← value .action
      let semicolon ← accept .semicolon
      return Draft.composite .playStoryboardTriggerAction [keyword, target, content, semicolon] :
        Production Draft) c := by
  simp [Parsing.action, look, h]

theorem action_playSfx (h : c.kind = .playSfxKeyword) :
    action c = (do
      let keyword ← take
      let content ← value .action
      let semicolon ← accept .semicolon
      return Draft.composite .playSfxTriggerAction [keyword, content, semicolon] :
        Production Draft) c := by
  simp [Parsing.action, look, h]

theorem action_set (h : c.kind = .setKeyword) :
    action c = (do
      let keyword ← expect .setKeyword
      let property ← qualifiedName .propertyName
      let target ← actionSelector
      let content ← value .action
      let semicolon ← accept .semicolon
      return Draft.composite .setTriggerAction [keyword, property, target, content, semicolon] :
        Production Draft) c := by
  simp [Parsing.action, look, h]

theorem contains_actionStarts (k : Kind) :
    actionStarts.contains k
      = decide (k ∈ [Kind.playStoryboardKeyword, .playSfxKeyword, .setKeyword]) := by
  rw [actionStarts, KindSet.contains_ofList]

/-- The kinds of actions. -/
def actionRule : SlotRule :=
  ⟨[.playStoryboardTriggerAction, .playSfxTriggerAction, .setTriggerAction], false, false⟩

theorem action_item (h : actionStarts.contains c.kind) : Item action .plain c := by
  have hcases : c.kind = .playStoryboardKeyword ∨ c.kind = .playSfxKeyword ∨ c.kind = .setKeyword := by
    simpa [contains_actionStarts] using h
  rcases hcases with hk | hk | hk
  · have hputs : (action c).Puts c .plain (some (action c).value) actionRule := by
      rw [action_playStoryboard hk]
      exact .node (.cons (takeKind_puts hk (by decide)).filled <| .cons (actionSelector_puts _) <|
        .cons (value_puts .action _) <| .cons (accept_puts (by decide) _) <| .done _ _) trivial rfl rfl (by decide)
    refine .of_puts hputs (by decide) ?_
    rw [action_playStoryboard hk]
    simp [take_full (c := c) (by simp [hk])]
  · have hputs : (action c).Puts c .plain (some (action c).value) actionRule := by
      rw [action_playSfx hk]
      exact .node (.cons (takeKind_puts hk (by decide)).filled <| .cons (value_puts .action _) <|
        .cons (accept_puts (by decide) _) <| .done _ _) trivial rfl rfl (by decide)
    refine .of_puts hputs (by decide) ?_
    rw [action_playSfx hk]
    simp [take_full (c := c) (by simp [hk])]
  · have hputs : (action c).Puts c .plain (some (action c).value) actionRule := by
      rw [action_set hk]
      exact .node (.cons (expect_puts rfl (by decide) _) <|
        .cons (qualifiedName_puts (.inl rfl) _).filled <| .cons (actionSelector_puts _) <|
        .cons (value_puts .action _) <| .cons (accept_puts (by decide) _) <| .done _ _) trivial rfl rfl (by decide)
    refine .of_puts hputs (by decide) ?_
    rw [action_set hk]
    simp [expect_full hk (by decide)]

/-! ## Triggers on properties -/

theorem isComparison_iff (k : Kind) : k.isComparison = decide (k ∈ Kind.comparisons) := by
  cases k <;> rfl

theorem comparison_puts (c : Cursor) :
    (comparison c).Puts c .plain (some (comparison c).value) ⟨Kind.comparisons, false, true⟩ := by
  by_cases h : c.kind.isComparison
  · have hx : comparison c = take c := by simp [Parsing.comparison, holds, look, h]
    have hk : c.kind ∈ Kind.comparisons := by simpa [isComparison_iff] using h
    have he : c.kind ≠ .eof := by
      rintro hk'
      simp [hk', Kind.isComparison] at h
    rw [hx]
    exact (take_puts he (SlotRole.admits_plain ..)).widen (by simpa [SlotRule.maybe] using hk)
      (fun _ => rfl)
  · have hx : comparison c = lacking .equals .expectedComparison c := by
      simp [Parsing.comparison, holds, look, h]
    rw [hx]
    exact (lacking_puts rfl rfl (by simp) c).widen (by decide) (fun _ => rfl)

theorem evaluation_puts (c : Cursor) :
    (evaluation c).Puts c .plain (some (evaluation c).value) (.maybe .propertyTriggerEvaluation) :=
  .node (.cons (qualifiedName_puts (.inl rfl) _).filled <| .cons (comparison_puts _) <|
    .cons (value_puts .evaluation _) <| .done _ _) trivial rfl rfl (by decide)

theorem evaluation_item (h : c.kind.isName) : Item evaluation .plain c :=
  .of_puts (evaluation_puts c) (by decide) (by simp [Parsing.evaluation, qualifiedName_full h])

/-- Where an evaluation can start. -/
def evaluationStarts (c : Cursor) : Bool := c.kind.isName && c.kind ≠ .importantKeyword

/-- The evaluations of a property trigger, and the report that there are none. -/
def evaluations : Production (List Draft) := do
  let items ← separated .evaluation evaluationStarts evaluation
  if items.isEmpty then reportGap .expectedEvaluation
  return items

theorem evaluations_apply (c : Cursor) :
    evaluations c = let o := separated .evaluation evaluationStarts evaluation c
      ⟨o.value, o.rest,
        o.reports ++ if o.value.isEmpty then [Problem.expectedEvaluation.reportAt o.rest.gap]
          else [],
        o.faults⟩ := by
  show ((separated .evaluation evaluationStarts evaluation >>= fun items =>
    (if items.isEmpty = true then reportGap .expectedEvaluation >>= fun _ => pure items
      else pure items : Production (List Draft))) : Production (List Draft)) c = _
  rw [bind_apply]
  cases h : (separated .evaluation evaluationStarts evaluation c).value.isEmpty <;>
    simp [h, reportGap]

theorem evaluations_puts (c : Cursor) :
    (evaluations c).Puts c .needed (Draft.list (evaluations c).value) (.maybe .list) := by
  have hitem (c : Cursor) (h : evaluationStarts c) : Item evaluation .plain c :=
    evaluation_item (Bool.and_eq_true_iff.mp h).1
  rw [evaluations_apply]
  refine needed_puts rfl (fun h => ?_) (fun h => ?_)
  · cases hs : evaluationStarts c with
    | false =>
      rw [separated_nothing hs]
      exact ⟨.nil c, rfl⟩
    | true =>
      have hsep : Separated .evaluation evaluationStarts evaluation c _ :=
        separated_separated (fun c h => (hitem c h).reads) c
      exact absurd h (hsep.ne_nil hs)
  · refine separated_puts hitem (.inr (.inr rfl)) fun _ => ?_
    by_contra hs
    rw [separated_nothing (by simpa using hs)] at h
    exact h rfl

theorem propertyTrigger_apply (c : Cursor) :
    propertyTrigger c = (do
      let triggerKeyword ← expect .triggerKeyword
      let propertyKeyword ← expect .propertyKeyword
      let items ← evaluations
      let mark ← qualifier
      let body ← block actionStarts action
      return Draft.composite .propertyTrigger
        [triggerKeyword, propertyKeyword, Draft.list items, mark, body] : Production Draft) c := by
  have hstarts : (fun c : Cursor => c.kind.isName && decide (c.kind ≠ .importantKeyword))
      = evaluationStarts := rfl
  simp only [Parsing.propertyTrigger, hstarts, bind_apply, evaluations_apply]
  cases h : (separated .evaluation evaluationStarts evaluation
    (expect .propertyKeyword (expect .triggerKeyword c).rest).rest).value.isEmpty <;>
    simp [reportGap]

/-- A trigger's row of slots, behind its keyword. -/
def TriggerRow (o : Outcome Draft) (c : Cursor) (kind : Kind) : Prop :=
  ∃ rest, o.value = .composite kind (some (expect .triggerKeyword c).value :: rest) ∧
    o.Row c (Draft.withRoles kind (some (expect .triggerKeyword c).value :: rest)) kind.layout

theorem propertyTrigger_row (c : Cursor) : TriggerRow (propertyTrigger c) c .propertyTrigger := by
  rw [propertyTrigger_apply]
  exact ⟨_, rfl, .cons (expect_puts rfl (by decide) _) <| .cons (expect_puts rfl (by decide) _) <|
    .cons (evaluations_puts _) <| .cons (qualifier_puts _) <|
    .cons (block_puts (fun _ => action_item) _).filled <| .done _ _⟩

/-! ## Triggers on events -/

theorem eventArgument_known (h : c.kind = .handledKeyword ∨ c.kind = .setHandledKeyword) :
    eventArgument c = take c := by
  rcases h with h | h <;> simp [Parsing.eventArgument, holds, look, h]

theorem eventArgument_unknown (h₁ : c.kind ≠ .handledKeyword) (h₂ : c.kind ≠ .setHandledKeyword) :
    eventArgument c = ⟨(take c).value, (take c).rest,
      (Problem.unknownEventArgument c.next.text).reportAt c.span :: (take c).reports,
      (take c).faults⟩ := by
  simp [Parsing.eventArgument, holds, look, report, h₁, h₂]

theorem eventArgument_item (h : c.kind.isName) : Item eventArgument .argument c := by
  have he := ne_eof_of_isName h
  obtain ⟨l, rest, hc, hk⟩ := Cursor.exists_ahead he
  have hpass := Cursor.passes_one hc
  by_cases hknown : c.kind = .handledKeyword ∨ c.kind = .setHandledKeyword
  · have hadmit : SlotRole.argument.Admits c.kind c.next [] := .inr hknown
    have hitem : Item take .argument c :=
      .of_puts (take_puts he hadmit) (by rcases hknown with h | h <;> simp [SlotRule.maybe, h])
        (take_full he)
    have hx := eventArgument_known hknown
    exact ⟨hx ▸ hitem.fills, hx ▸ hitem.proper, hx ▸ hitem.full⟩
  · obtain ⟨h₁, h₂⟩ := not_or.mp hknown
    have hx := eventArgument_unknown h₁ h₂
    rw [take_apply hc, hpass.next_eq] at hx
    refine ⟨?_, ?_, ?_⟩
    · rw [hx]
      exact ⟨.unknownArgument hpass (hk ▸ h) (hk ▸ h₁) (hk ▸ h₂), rfl⟩
    · rw [hx]
      rintro (hcomma : l.kind = .comma)
      rw [← hk, hcomma] at h
      cases h
    · simp [hx]

theorem eventArguments_puts (h : c.kind = .leftParen) :
    (eventArguments c).Puts c .plain (some (eventArguments c).value)
      (.maybe .eventTriggerArgumentList) := by
  have hlist (c : Cursor) := @separated_puts .eventArgument (fun c => c.kind.isName) eventArgument
    .argument c (fun _ => eventArgument_item) (.inr (.inl rfl)) nofun
  exact .node (.cons (takeKind_puts h (by decide)).filled <| .cons (hlist _) <|
    .cons (expect_puts rfl (by decide) _) <| .done _ _) trivial rfl rfl (by decide)

theorem eventTrigger_row (c : Cursor) : TriggerRow (eventTrigger c) c .eventTrigger := by
  have hargs (c : Cursor) : (optional (decide (c.kind = .leftParen)) eventArguments c).Puts c .plain
      (optional (decide (c.kind = .leftParen)) eventArguments c).value
      (.maybe .eventTriggerArgumentList) :=
    optional_puts (by simp) rfl fun h => eventArguments_puts (of_decide_eq_true h)
  exact ⟨_, rfl, .cons (expect_puts rfl (by decide) _) <| .cons (expect_puts rfl (by decide) _) <|
    .cons (qualifiedName_puts (.inr rfl) _).filled <| .seen <| .cons (hargs _) <|
    .cons (qualifier_puts _) <| .cons (block_puts (fun _ => action_item) _).filled <| .done _ _⟩

/-! ## Triggers -/

theorem trigger_row (c : Cursor) : ∃ kind, kind.isTrigger ∧ TriggerRow (trigger c) c kind := by
  by_cases h : c.kindAt 1 = .eventKeyword
  · have hx : trigger c = eventTrigger c := by simp [Parsing.trigger, holds, look, h]
    exact ⟨.eventTrigger, rfl, hx ▸ eventTrigger_row c⟩
  · have hx : trigger c = propertyTrigger c := by simp [Parsing.trigger, holds, look, h]
    exact ⟨.propertyTrigger, rfl, hx ▸ propertyTrigger_row c⟩

theorem trigger_full (h : c.kind = .triggerKeyword) : (trigger c).value.lexemes ≠ [] := by
  obtain ⟨kind, -, rest, hvalue, -⟩ := trigger_row c
  rw [hvalue]
  simp [expect_full h (by decide)]

theorem trigger_item (h : c.kind = .triggerKeyword) : Item trigger .plain c := by
  obtain ⟨kind, hk, rest, hvalue, hrow⟩ := trigger_row c
  have hputs : (trigger c).Puts c .plain (some (trigger c).value)
      ⟨[.propertyTrigger, .eventTrigger], false, false⟩ := by
    rw [hvalue]
    rcases Kind.isTrigger_iff.mp hk with rfl | rfl
    · exact .node hrow trivial rfl rfl (by decide)
    · exact .node hrow trivial rfl rfl (by decide)
  exact .of_puts hputs (by decide) (trigger_full h)

end Stylesheet.Production
