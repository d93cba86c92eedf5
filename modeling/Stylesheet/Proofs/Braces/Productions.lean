import Stylesheet.Proofs.Braces.Loops

/-!
# Braces of productions

Each production is balanced, and its lemma follows its text. Braces are read in three places only:
by blocks, by values in braces, and by what fits nowhere. A plain value ends before a closing brace,
and has no opening one by assumption.

Results:
* `bracedValue_balanced`, `value_balanced`: values.
* `ruleSetItem_balanced`, `action_balanced`, `target_balanced`: what stands in blocks.
* `item_matched`: what stands in a style sheet.
-/
namespace Stylesheet.Production

variable {c : Cursor}

/-! ## Pieces -/

theorem expect_balanced {kind : Kind} (hk : kind.isUnbraced) (c : Cursor) :
    (expect kind c).Balances c [some (expect kind c).value] := by
  obtain ⟨htoken, -, -, -, he⟩ := Kind.isUnbraced_iff.mp hk
  exact (expect_puts htoken he c).balanced (by simpa [SlotRule.one] using hk)

theorem takeKind_balanced {kind : Kind} (h : c.kind = kind) (hk : kind.isUnbraced) :
    (take c).Balances c [some (take c).value] := by
  obtain ⟨-, -, -, -, he⟩ := Kind.isUnbraced_iff.mp hk
  exact (takeKind_puts h he).balanced (by simpa [SlotRule.maybe] using hk)

theorem expectName_balanced (c : Cursor) :
    (expectName c).Balances c [some (expectName c).value] :=
  (expectName_puts c).balanced (by decide)

theorem takeName_balanced (h : c.kind.isName) :
    (takeAs .identifier c).Balances c [some (takeAs .identifier c).value] :=
  (takeName_puts h (SlotRole.admits_plain ..)).balanced (by decide)

theorem qualifier_balanced (c : Cursor) : (qualifier c).Balances c [(qualifier c).value] :=
  (qualifier_puts c).balanced (by decide)

theorem qualifiedName_balanced {kind : Kind} (hk : kind = .propertyName ∨ kind = .eventName)
    (c : Cursor) : (qualifiedName kind c).Balances c [some (qualifiedName kind c).value] := by
  have hnode : kind ≠ .block ∧ kind ≠ .propertyValueWithBraces := by
    rcases hk with rfl | rfl <;> decide
  by_cases h : (expectName c).rest.kind = .period ∧ ((expectName c).rest.kindAt 1).isName
  · have hname := takeName_balanced (c := (take (expectName c).rest).rest)
      (by rw [kind_of_take h.2]; exact h.2)
    rw [qualifiedName_owned kind h.1 h.2]
    exact .node (.cons (expectName_balanced c) <| .cons (takeKind_balanced h.1 rfl) <|
      .cons hname <| .done _ _) hnode
  · rw [qualifiedName_alone kind h]
    exact .node (.skip <| .skip <| .cons (expectName_balanced c) <| .done _ _) hnode

/-! ## Selectors -/

theorem touchingName_balanced (c : Cursor) :
    (touchingName c).Balances c [some (touchingName c).value] :=
  (touchingName_puts c).balanced (by decide)

theorem touchingMark_balanced (c : Cursor) :
    (touchingMark c).Balances c [(touchingMark c).value] :=
  (touchingMark_puts c).balanced (by decide)

theorem subPart_balanced (c : Cursor) : (subPart c).Balances c [some (subPart c).value] := by
  by_cases hcolon : c.kind = .colon
  · rw [subPart_colon hcolon]
    exact .node (.cons (takeKind_balanced hcolon rfl) <| .cons (touchingName_balanced _) <|
      .done _ _) (by decide)
  by_cases hmarked : c.kind = .period ∨ c.kind = .hash
  · have hmark : (take c).Balances c [some (take c).value] := by
      rcases hmarked with h | h
      · exact takeKind_balanced h rfl
      · exact takeKind_balanced h rfl
    rw [subPart_mark hmarked]
    exact .node (.cons hmark <| .cons (touchingName_balanced _) <|
      .cons (touchingMark_balanced _) <| .done _ _) (by decide)
  by_cases hstar : c.kind = .asterisk
  · rw [subPart_asterisk hstar]
    exact .node (.skip <| .cons (takeKind_balanced hstar rfl) <|
      .cons (touchingMark_balanced _) <| .done _ _) (by decide)
  · obtain ⟨hperiod, hhash⟩ := not_or.mp hmarked
    rw [subPart_name hperiod hhash hstar hcolon]
    exact .node (.skip <| .cons (expectName_balanced c) <| .cons (touchingMark_balanced _) <|
      .done _ _) (by decide)

theorem selectorPart_balanced (c : Cursor) :
    (selectorPart c).Balances c [some (selectorPart c).value] := by
  have hmore := many_row .nil .append partStep_steps
    (fun _ _ => optional_step_balanced fun c _ => subPart_balanced c) (subPart c).rest
  have hlist : Balanced c [Draft.list ((subPart c).value :: (many partStep (subPart c).rest).value)]
      (many partStep (subPart c).rest).rest :=
    .list (Balanced.cons (subPart_balanced c) hmore)
  rw [selectorPart_apply]
  exact hlist.node (by decide)

theorem componentStep_balanced (c : Cursor) (d : Draft) (hd : (componentStep c).value = some d) :
    (componentStep c).Balances c [some d] := by
  rw [componentStep_apply] at hd ⊢
  by_cases h : combinators.contains c.kind
  · rw [if_pos h] at hd ⊢
    cases hd
    have hk : c.kind.isUnbraced := by
      rw [contains_combinators] at h
      revert h
      generalize c.kind = k
      cases k <;> decide
    exact takeKind_balanced rfl hk
  by_cases hp : partStarts.contains c.kind
  · rw [if_neg h, if_pos hp] at hd ⊢
    cases hd
    exact selectorPart_balanced c
  · rw [if_neg h, if_neg hp] at hd
    cases hd

theorem selector_balanced (c : Cursor) : (selector c).Balances c [some (selector c).value] := by
  have hlist := many_balanced componentStep_steps componentStep_balanced c
  rw [selector_apply]
  exact hlist.node (by decide)

theorem parenthesizedSelector_balanced (c : Cursor) :
    (parenthesizedSelector c).Balances c [some (parenthesizedSelector c).value] :=
  .node (.cons (expect_balanced rfl _) <| .cons (selector_balanced _) <|
    .cons (expect_balanced rfl _) <| .done _ _) (by decide)

theorem indexer_balanced (c : Cursor) : (indexer c).Balances c [some (indexer c).value] :=
  .node (.cons (expect_balanced rfl _) <| .cons (expect_balanced rfl _) <|
    .cons (expect_balanced rfl _) <| .done _ _) (by decide)

theorem navigation_balanced (c : Cursor) :
    (navigation c).Balances c [some (navigation c).value] := by
  refine .node ?_ (by decide)
  refine .cons (expect_balanced rfl _) ?_
  refine .cons (qualifiedName_balanced (.inl rfl) _) ?_
  refine .seen ?_
  refine .cons (optional_balanced fun _ => indexer_balanced _) ?_
  refine .cons (expect_balanced rfl _) ?_
  exact .cons (expectName_balanced _) <| .done _ _

theorem navigatedSelector_balanced (c : Cursor) :
    (navigatedSelector c).Balances c [some (navigatedSelector c).value] :=
  .node (.cons (selector_balanced _) <| .seen <|
    .cons (optional_balanced fun _ => navigation_balanced _) <| .done _ _) (by decide)

/-! ## Values -/

/-- The content of a value is one token, made of the lexemes that were counted. -/
theorem contentOf_token {count : Nat} (h : count ≤ c.ahead.length) :
    ∃ p, (bracedValue.contentOf count c).value = .token p ∧ p.kind = .propertyValueToken ∧
      p.lexemes = c.ahead.take count ∧
      c.Passes p.lexemes (bracedValue.contentOf count c).rest := by
  unfold bracedValue.contentOf Parsing.bracedValue.contentOf
  split
  · next h0 =>
    have htake : c.ahead.take count = [] := by rw [h0, List.take_zero]
    exact ⟨.missing .propertyValueToken, rfl, rfl, htake.symm, .refl c⟩
  · next hn =>
    have hpass := c.passes_take count
    cases htake : c.ahead.take count with
    | nil =>
      have hlen := congrArg List.length htake
      rw [List.length_take, Nat.min_eq_left h] at hlen
      exact absurd hlen hn
    | cons first more =>
      rw [htake] at hpass
      rw [takeRun_eq, takeRun_apply .propertyValueToken htake h]
      exact ⟨.run .propertyValueToken first more, rfl, rfl, rfl, hpass⟩

/-- A value in braces ends at its own closing brace. -/
theorem bracedValue_balanced (c : Cursor) :
    (bracedValue c).Balances c [some (bracedValue c).value] := by
  by_cases h : c.kind = .leftBrace
  · obtain ⟨l, hl, hopen, htake⟩ := exists_opening h
    have hle := bracedLength_le 0 (c.advance 1).ahead
    obtain ⟨p, hvalue, hkind, hlexemes, hpass⟩ := contentOf_token hle
    rw [bracedValue_braced h]
    simp only [bind_apply, look, pure_apply, htake, hvalue]
    refine Balanced.braced (fun _ => ⟨p, rfl, hkind⟩) hl hopen (.token hpass) fun _ => ?_
    have hahead := hpass.ahead.symm
    rw [hlexemes] at hahead
    exact List.append_cancel_left (hahead.trans (List.take_append_drop _ _).symm)
  · rw [bracedValue_bare h]
    exact Balanced.bare (fun _ => ⟨.missing .propertyValueToken, rfl, rfl⟩) (.missing _ c)

/-- A plain value ends before a closing brace. -/
theorem ne_rightBrace_of_mem_value {context : Run.Context} {first : Bool} {ls : List Lexeme} :
    ∀ l ∈ ls.take (Run.valueLength context first ls), l.kind ≠ .rightBrace := by
  fun_induction Run.valueLength context first ls with
  | case1 => simp
  | case2 first l rest hends => simp
  | case3 first l rest hends ih =>
    rw [List.take_succ_cons]
    refine List.forall_mem_cons.mpr ⟨?_, ih⟩
    intro hr
    simp [hr, Run.endsValue] at hends

theorem value_balanced (context : Run.Context) (c : Cursor) :
    (value context c).Balances c [some (value context c).value] := by
  by_cases h : c.kind = .leftBrace ∧ context ≠ .evaluation
  · rw [value_braced h.1 h.2]
    exact bracedValue_balanced c
  · obtain ⟨p, hvalue, -, hlexemes, hpass⟩ := contentOf_token (valueLength_le context true c.ahead)
    rw [value_plain h]
    simp only [bind_apply, look, pure_apply, hvalue]
    exact Balanced.value hpass (hlexemes ▸ ne_rightBrace_of_mem_value)

/-! ## Declarations -/

theorem rule_balanced (c : Cursor) : (rule c).Balances c [some (rule c).value] := by
  refine .node ?_ (by decide)
  refine .cons (qualifiedName_balanced (.inl rfl) _) ?_
  refine .cons (expect_balanced rfl _) ?_
  refine .cons (value_balanced _ _) ?_
  refine .cons (qualifier_balanced _) ?_
  exact .cons (expect_balanced rfl _) <| .done _ _

theorem transitionArguments_balanced (c : Cursor) :
    (transitionArguments c).Balances c [some (transitionArguments c).value] := by
  have hname (c : Cursor) (h : nameStarts.contains c.kind) : c.kind.isName :=
    contains_nameStarts _ ▸ h
  have hlist (c : Cursor) := @separated_balanced .transitionArgument
    (fun c => nameStarts.contains c.kind) (takeAs .identifier)
    (fun c h => (name_item .plain (SlotRole.admits_plain ..) (hname c h)).reads)
    (fun c h => takeName_balanced (hname c h)) c
  exact .node (.cons (expect_balanced rfl _) <| .cons (hlist _) <|
    .cons (expect_balanced rfl _) <| .done _ _) (by decide)

theorem transition_balanced (h : c.kind = .transitionKeyword) :
    (transition c).Balances c [some (transition c).value] := by
  refine .node ?_ (by decide)
  refine .cons (takeKind_balanced h rfl) ?_
  refine .cons (transitionArguments_balanced _) ?_
  refine .cons (expect_balanced rfl _) ?_
  refine .cons (value_balanced _ _) ?_
  refine .cons (qualifier_balanced _) ?_
  exact .cons (expect_balanced rfl _) <| .done _ _

/-! ## Triggers -/

theorem actionSelector_balanced (c : Cursor) :
    (actionSelector c).Balances c [(actionSelector c).value] :=
  @optional_balanced (decide (c.kind = .leftParen)) parenthesizedSelector c fun _ =>
    parenthesizedSelector_balanced c

theorem acceptSemicolon_balanced (c : Cursor) :
    (accept .semicolon c).Balances c [(accept .semicolon c).value] :=
  (accept_puts (by decide) c).balanced (by decide)

theorem action_balanced (h : actionStarts.contains c.kind) :
    (action c).Balances c [some (action c).value] := by
  have hcases : c.kind = .playStoryboardKeyword ∨ c.kind = .playSfxKeyword ∨
      c.kind = .setKeyword := by
    simpa [contains_actionStarts] using h
  rcases hcases with hk | hk | hk
  · rw [action_playStoryboard hk]
    exact .node (.cons (takeKind_balanced hk rfl) <| .cons (actionSelector_balanced _) <|
      .cons (value_balanced _ _) <| .cons (acceptSemicolon_balanced _) <| .done _ _) (by decide)
  · rw [action_playSfx hk]
    exact .node (.cons (takeKind_balanced hk rfl) <| .cons (value_balanced _ _) <|
      .cons (acceptSemicolon_balanced _) <| .done _ _) (by decide)
  · rw [action_set hk]
    exact .node (.cons (expect_balanced rfl _) <| .cons (qualifiedName_balanced (.inl rfl) _) <|
      .cons (actionSelector_balanced _) <| .cons (value_balanced _ _) <|
      .cons (acceptSemicolon_balanced _) <| .done _ _) (by decide)

theorem actions_balanced (c : Cursor) :
    (block actionStarts action c).Balances c [some (block actionStarts action c).value] :=
  block_balanced (fun _ => action_item) (fun _ => action_balanced) c

theorem evaluation_balanced (c : Cursor) :
    (evaluation c).Balances c [some (evaluation c).value] :=
  .node (.cons (qualifiedName_balanced (.inl rfl) _) <|
    .cons ((comparison_puts _).balanced (by decide)) <| .cons (value_balanced _ _) <|
    .done _ _) (by decide)

theorem evaluations_balanced (c : Cursor) :
    (evaluations c).Balances c [Draft.list (evaluations c).value] := by
  have hlist := @separated_balanced .evaluation evaluationStarts evaluation
    (fun c h => (evaluation_item (Bool.and_eq_true_iff.mp h).1).reads)
    (fun c _ => evaluation_balanced c) c
  rw [evaluations_apply]
  exact hlist

theorem propertyTrigger_balanced (c : Cursor) :
    (propertyTrigger c).Balances c [some (propertyTrigger c).value] := by
  rw [propertyTrigger_apply]
  exact .node (.cons (expect_balanced rfl _) <| .cons (expect_balanced rfl _) <|
    .cons (evaluations_balanced _) <| .cons (qualifier_balanced _) <|
    .cons (actions_balanced _) <| .done _ _) (by decide)

theorem eventArgument_balanced (h : c.kind.isName) :
    (eventArgument c).Balances c [some (eventArgument c).value] := by
  have hk : c.kind.isUnbraced := by
    rw [Kind.isName, Bool.or_eq_true, decide_eq_true_iff] at h
    rcases h with h | h
    · rw [h]
      rfl
    · exact Kind.isUnbraced_of_isKeyword h
  have htake := takeKind_balanced rfl hk
  by_cases hknown : c.kind = .handledKeyword ∨ c.kind = .setHandledKeyword
  · rw [eventArgument_known hknown]
    exact htake
  · rw [eventArgument_unknown (not_or.mp hknown).1 (not_or.mp hknown).2]
    exact htake

theorem eventArguments_balanced (h : c.kind = .leftParen) :
    (eventArguments c).Balances c [some (eventArguments c).value] := by
  have hlist (c : Cursor) := @separated_balanced .eventArgument (fun c => c.kind.isName)
    eventArgument (fun _ h => (eventArgument_item h).reads) (fun _ => eventArgument_balanced) c
  exact .node (.cons (takeKind_balanced h rfl) <| .cons (hlist _) <|
    .cons (expect_balanced rfl _) <| .done _ _) (by decide)

theorem eventTrigger_balanced (c : Cursor) :
    (eventTrigger c).Balances c [some (eventTrigger c).value] := by
  refine .node ?_ (by decide)
  refine .cons (expect_balanced rfl _) ?_
  refine .cons (expect_balanced rfl _) ?_
  refine .cons (qualifiedName_balanced (.inr rfl) _) ?_
  refine .seen ?_
  refine .cons (optional_balanced fun h => eventArguments_balanced (of_decide_eq_true h)) ?_
  refine .cons (qualifier_balanced _) ?_
  exact .cons (actions_balanced _) <| .done _ _

theorem trigger_balanced (c : Cursor) : (trigger c).Balances c [some (trigger c).value] := by
  by_cases h : c.kindAt 1 = .eventKeyword
  · have hx : trigger c = eventTrigger c := by simp [Parsing.trigger, holds, look, h]
    rw [hx]
    exact eventTrigger_balanced c
  · have hx : trigger c = propertyTrigger c := by simp [Parsing.trigger, holds, look, h]
    rw [hx]
    exact propertyTrigger_balanced c

/-! ## Storyboards -/

theorem optionalName_balanced (c : Cursor) :
    (optionalName c).Balances c [(optionalName c).value] :=
  (optionalName_puts c).balanced (by decide)

theorem keyframe_balanced (c : Cursor) : (keyframe c).Balances c [some (keyframe c).value] := by
  refine .node ?_ (by decide)
  refine .cons (expect_balanced rfl _) ?_
  refine .cons (expect_balanced rfl _) ?_
  refine .cons (optionalName_balanced _) ?_
  exact .cons (bracedValue_balanced _) <| .done _ _

theorem animation_balanced (c : Cursor) :
    (animation c).Balances c [some (animation c).value] := by
  have hbody (c : Cursor) := block_balanced (fun _ => keyframe_item)
    (fun c _ => keyframe_balanced c) c
  refine .node ?_ (by decide)
  refine .cons (expect_balanced rfl _) ?_
  refine .cons (qualifiedName_balanced (.inl rfl) _) ?_
  refine .seen ?_
  refine .cons (optional_balanced fun _ => navigation_balanced _) ?_
  exact .cons (hbody _) <| .done _ _

theorem target_balanced (c : Cursor) : (target c).Balances c [some (target c).value] := by
  have hbody (c : Cursor) := block_balanced (fun _ => animation_item)
    (fun c _ => animation_balanced c) c
  refine .node ?_ (by decide)
  refine .cons (expect_balanced rfl _) ?_
  refine .cons (optionalName_balanced _) ?_
  refine .seen ?_
  refine .cons (optional_balanced fun _ => parenthesizedSelector_balanced _) ?_
  exact .cons (hbody _) <| .done _ _

theorem loopBehavior_balanced (h : c.kind.isName) :
    (loopBehavior c).Balances c [some (loopBehavior c).value] :=
  (loopBehavior_puts h).balanced (by decide)

theorem storyboard_balanced (c : Cursor) :
    (storyboard c).Balances c [some (storyboard c).value] := by
  have hloop (c : Cursor) (h : nameStarts.contains c.kind) :
      (loopBehavior c).Balances c [some (loopBehavior c).value] :=
    loopBehavior_balanced (contains_nameStarts _ ▸ h)
  have hbody (c : Cursor) := block_balanced (fun _ => target_item) (fun c _ => target_balanced c) c
  refine .node ?_ (by decide)
  refine .cons (expect_balanced rfl _) ?_
  refine .cons (expectName_balanced _) ?_
  refine .seen ?_
  refine .cons (optional_balanced (hloop _)) ?_
  exact .cons (hbody _) <| .done _ _

/-! ## Style sheets -/

theorem ruleSetItem_balanced (c : Cursor) :
    (ruleSetItem c).Balances c [some (ruleSetItem c).value] := by
  by_cases ht : c.kind = .triggerKeyword
  · rw [ruleSetItem_trigger ht]
    exact trigger_balanced c
  by_cases hn : c.kind = .transitionKeyword ∧ c.kindAt 1 = .leftParen
  · rw [ruleSetItem_transition hn.1 hn.2]
    exact transition_balanced hn.1
  · rw [ruleSetItem_rule ht hn]
    exact rule_balanced c

theorem ruleSet_balanced (c : Cursor) : (ruleSet c).Balances c [some (ruleSet c).value] := by
  have hselectors (c : Cursor) := @separated_balanced .selector
    (fun c => partStarts.contains c.kind) navigatedSelector
    (fun _ h => (navigatedSelector_item h).reads) (fun c _ => navigatedSelector_balanced c) c
  have hbody (c : Cursor) := block_balanced (fun _ => ruleSetItem_item)
    (fun c _ => ruleSetItem_balanced c) c
  refine .node ?_ (by decide)
  refine .cons (hselectors _) ?_
  exact .cons (hbody _) <| .done _ _

/-- In a style sheet, outside of all groups, a closing brace may be read that closes nothing. -/
theorem item_matched (h : c.kind ≠ .eof) : Matched c [some (item c).value] (item c).rest := by
  by_cases ht : c.kind = .triggerKeyword
  · have htrigger := (trigger_balanced c).toMatched
    rw [item_trigger ht]
    exact htrigger
  by_cases ha : c.kind = .atSign
  · rw [item_storyboard ha]
    exact (storyboard_balanced c).toMatched
  rw [item_other ht ha]
  split
  · exact (ruleSet_balanced c).toMatched
  · exact unexpected_matched h

theorem documentStep_matched (c : Cursor) (d : Draft) (hd : (documentStep c).value = some d) :
    Matched c [some d] (documentStep c).rest := by
  rw [documentStep_apply] at hd ⊢
  split at hd
  · cases hd
  · next he =>
    cases hd
    rw [if_neg he]
    exact item_matched he

/-- The items of a style sheet, in their slot. -/
theorem items_matched (c : Cursor) :
    Matched c [Draft.list (many documentStep c).value] (many documentStep c).rest :=
  .list (many_row .nil .append documentStep_steps documentStep_matched c)

end Stylesheet.Production
