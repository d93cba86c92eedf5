import Stylesheet.Proofs.Origins

/-!
# What productions make

Each production makes a node of its kind, and so do the productions that it calls: its lemma follows
its text. Loops make lists of what their steps make.

Results:
* `block_grown`, `separated_grown`, `unexpected_grown`: the loops of style sheets.
* `ruleSetItem_grown`, `action_grown`, `target_grown`: what stands in blocks.
* `grown_draftOf`: every node of a text's draft is made where it stands.
* `everywhere_of_made`: what all nodes have that are made somewhere, all nodes of a parse have.
-/
namespace Stylesheet.Production

variable {c : Cursor}

/-! ## Loops -/

/-- A loop of steps that grow, in its slot. -/
theorem many_grown {step : Production (Option Draft)} {role : SlotRole} (hs : Steps step role)
    (hstep : ∀ c d, (step c).value = some d → (step c).Grows c [some d]) (c : Cursor) :
    (many step c).Grows c [Draft.list (many step c).value] :=
  Grown.list (many_row .nil .append hs hstep c)

theorem optional_grown {condition : Bool} {p : Production Draft}
    (h : condition = true → (p c).Grows c [some (p c).value]) :
    (optional condition p c).Grows c [(optional condition p c).value] := by
  cases condition with
  | false => exact .empty c
  | true =>
    rw [optional_true]
    exact h rfl

theorem optional_step_grown {condition : Cursor → Bool} {item : Production Draft} {d : Draft}
    (hitem : ∀ c, condition c → (item c).Grows c [some (item c).value])
    (hd : ((do optional (← holds condition) item : Production (Option Draft)) c).value = some d) :
    ((do optional (← holds condition) item : Production (Option Draft)) c).Grows c [some d] := by
  have hslot : (optional (condition c) item c).Grows c [(optional (condition c) item c).value] :=
    optional_grown (hitem c)
  rw [← hd]
  exact hslot

theorem unexpected_grown {starts : KindSet} (hm : Makes .error (unexpected starts))
    (h : c.kind ≠ .eof) : (unexpected starts c).Grows c [some (unexpected starts c).value] := by
  obtain ⟨l, more, count, htake, hx⟩ := unexpected_apply starts h
  have hpass := c.passes_take (count + 1)
  rw [htake] at hpass
  refine .made hm (congrArg Outcome.value hx) ?_
  rw [hx]
  exact Grown.singles hpass

section Block

variable {starts : KindSet} {item : Production Draft}

theorem blockStep_grown (hb : Bodies starts item)
    (hitem : ∀ c, starts.contains c.kind → (item c).Grows c [some (item c).value])
    (c : Cursor) (d : Draft) (hd : (blockStep starts item c).value = some d) :
    (blockStep starts item c).Grows c [some d] := by
  rw [blockStep_apply] at hd ⊢
  split at hd
  · cases hd
  · next he =>
    cases hd
    rw [if_neg he]
    unfold blockItem
    split
    · next hs => exact hitem c hs
    · exact unexpected_grown (.blockError hb) (not_or.mp he).2

theorem expect_grown {kind : Kind} (hk : kind.isToken) (he : kind ≠ .eof) (c : Cursor) :
    (expect kind c).Grows c [some (expect kind c).value] :=
  (expect_puts hk he c).grows (by simpa [SlotRule.one] using hk)

/-- Reading a lexeme passes it. At the end of a text there is none, and nothing is passed. -/
theorem take_grown (c : Cursor) : (take c).Grows c [some (take c).value] := by
  cases hc : c.ahead with
  | nil =>
    have hx : take c = ⟨.missing c.kind, c, [], [.emptyPiece, .pastEnd]⟩ := by
      simp [take, takeAs, takeRun, pastEnd, hc]
    rw [hx]
    exact Grown.token (.refl c)
  | cons l rest =>
    rw [take_apply hc]
    exact Grown.token (Cursor.passes_one hc)

theorem block_grown (hb : Bodies starts item)
    (hfill : ∀ c, starts.contains c.kind → Item item .plain c)
    (hitem : ∀ c, starts.contains c.kind → (item c).Grows c [some (item c).value]) (c : Cursor) :
    (block starts item c).Grows c [some (block starts item c).value] := by
  by_cases h : c.kind = .leftBrace
  · have hx : block starts item c = _ := (block_apply c).trans (if_pos h)
    refine .made (.block hb) (congrArg Outcome.value hx) ?_
    rw [hx]
    exact .cons (take_grown _) <|
      .cons (many_grown (blockStep_steps hfill) (blockStep_grown hb hitem) _) <|
      .cons (expect_grown rfl (by decide) _) <| .done _ _
  · have hx : block starts item c = _ := (block_apply c).trans (if_neg h)
    refine .made (.block hb) (congrArg Outcome.value hx) ?_
    rw [hx]
    exact Grown.cons (.token (.refl c)) <| .cons (.empty c) <| .cons (.token (.refl c)) <|
      .nil c

end Block

section Separated

variable {listed : Listed} {starts : Cursor → Bool} {item : Production Draft}

theorem Separated.grown {o : Outcome (List Draft)}
    (hitem : ∀ c, starts c → (item c).Grows c [some (item c).value])
    (h : Separated listed starts item c o) : Grown c (o.value.map some) o.rest := by
  have hcomma {c c' : Cursor} {l : Lexeme} (hl : c.Passes [l] c') :
      Grown c [some (.single l.kind l)] c' := .token hl
  induction h with
  | nothing => exact .nil _
  | last h => exact hitem _ h
  | trailing h hl => exact Grown.cons (hitem _ h) (hcomma hl)
  | next h hl hk hn ht ih => exact Grown.cons (hitem _ h) ((hcomma hl).cons ih)
  | gap h hk hn ht ih => exact Grown.cons (hitem _ h) (Grown.cons (.token (.refl _)) ih)

/-- A separated list of items that grow, in its slot. -/
theorem separated_grown (hlt : ∀ c, starts c → (item c).rest.ahead.length < c.ahead.length)
    (hitem : ∀ c, starts c → (item c).Grows c [some (item c).value]) (c : Cursor) :
    (separated listed starts item c).Grows c
      [Draft.list (separated listed starts item c).value] := by
  have hsep : Separated listed starts item c _ := separated_separated hlt c
  exact Grown.list (hsep.grown hitem)

end Separated

/-! ## Pieces -/

theorem expectName_grown (c : Cursor) : (expectName c).Grows c [some (expectName c).value] :=
  (expectName_puts c).grows (by decide)

theorem optionalName_grown (c : Cursor) : (optionalName c).Grows c [(optionalName c).value] :=
  (optionalName_puts c).grows (by decide)

theorem takeName_grown (h : c.kind.isName) :
    (takeAs .identifier c).Grows c [some (takeAs .identifier c).value] :=
  (takeName_puts h (SlotRole.admits_plain ..)).grows (by decide)

theorem qualifier_grown (c : Cursor) : (qualifier c).Grows c [(qualifier c).value] :=
  (qualifier_puts c).grows (by decide)

theorem qualifiedName_grown {kind : Kind} (hm : Makes kind (qualifiedName kind)) (c : Cursor) :
    (qualifiedName kind c).Grows c [some (qualifiedName kind c).value] := by
  by_cases h : (expectName c).rest.kind = .period ∧ ((expectName c).rest.kindAt 1).isName
  · have hx := qualifiedName_owned kind h.1 h.2
    have hname := takeName_grown (c := (take (expectName c).rest).rest)
      (by rw [kind_of_take h.2]; exact h.2)
    refine .made hm (congrArg Outcome.value hx) ?_
    rw [hx]
    exact .cons (expectName_grown c) <| .cons (take_grown _) <|
      .cons hname <| .done _ _
  · have hx := qualifiedName_alone kind h
    refine .made hm (congrArg Outcome.value hx) ?_
    rw [hx]
    exact .skip <| .skip <| .cons (expectName_grown c) <| .done _ _

/-! ## Selectors -/

theorem touchingName_grown (c : Cursor) :
    (touchingName c).Grows c [some (touchingName c).value] :=
  (touchingName_puts c).grows (by decide)

theorem touchingMark_grown (c : Cursor) : (touchingMark c).Grows c [(touchingMark c).value] :=
  (touchingMark_puts c).grows (by decide)

theorem subPart_grown (c : Cursor) : (subPart c).Grows c [some (subPart c).value] := by
  by_cases hcolon : c.kind = .colon
  · have hx := subPart_colon hcolon
    refine .made .pseudoClass (congrArg Outcome.value hx) ?_
    rw [hx]
    exact .cons (take_grown _) <| .cons (touchingName_grown _) <|
      .done _ _
  by_cases hmarked : c.kind = .period ∨ c.kind = .hash
  · have hx := subPart_mark hmarked
    refine .made .selectorSubPart (congrArg Outcome.value hx) ?_
    rw [hx]
    exact .cons (take_grown c) <| .cons (touchingName_grown _) <| .cons (touchingMark_grown _) <|
      .done _ _
  by_cases hstar : c.kind = .asterisk
  · have hx := subPart_asterisk hstar
    refine .made .selectorSubPart (congrArg Outcome.value hx) ?_
    rw [hx]
    exact .skip <| .cons (take_grown _) <|
      .cons (touchingMark_grown _) <| .done _ _
  · obtain ⟨hperiod, hhash⟩ := not_or.mp hmarked
    have hx := subPart_name hperiod hhash hstar hcolon
    refine .made .selectorSubPart (congrArg Outcome.value hx) ?_
    rw [hx]
    exact .skip <| .cons (expectName_grown c) <| .cons (touchingMark_grown _) <| .done _ _

theorem selectorPart_grown (c : Cursor) :
    (selectorPart c).Grows c [some (selectorPart c).value] := by
  have hmore := many_row .nil .append partStep_steps
    (fun _ _ => optional_step_grown fun c _ => subPart_grown c) (subPart c).rest
  have hlist : Grown c [Draft.list ((subPart c).value :: (many partStep (subPart c).rest).value)]
      (many partStep (subPart c).rest).rest :=
    .list (Grown.cons (subPart_grown c) hmore)
  have hx := selectorPart_apply c
  refine .made .selectorPart (congrArg Outcome.value hx) ?_
  rw [hx]
  exact hlist

theorem componentStep_grown (c : Cursor) (d : Draft) (hd : (componentStep c).value = some d) :
    (componentStep c).Grows c [some d] := by
  rw [componentStep_apply] at hd ⊢
  by_cases h : combinators.contains c.kind
  · rw [if_pos h] at hd ⊢
    cases hd
    exact take_grown c
  by_cases hp : partStarts.contains c.kind
  · rw [if_neg h, if_pos hp] at hd ⊢
    cases hd
    exact selectorPart_grown c
  · rw [if_neg h, if_neg hp] at hd
    cases hd

theorem selector_grown (c : Cursor) : (selector c).Grows c [some (selector c).value] := by
  have hlist := many_grown componentStep_steps componentStep_grown c
  have hx := selector_apply c
  refine .made .selector (congrArg Outcome.value hx) ?_
  rw [hx]
  exact hlist

theorem parenthesizedSelector_grown (c : Cursor) :
    (parenthesizedSelector c).Grows c [some (parenthesizedSelector c).value] :=
  .made .selectorWithParentheses rfl <| .cons (expect_grown rfl (by decide) _) <|
    .cons (selector_grown _) <| .cons (expect_grown rfl (by decide) _) <| .done _ _

theorem indexer_grown (c : Cursor) : (indexer c).Grows c [some (indexer c).value] :=
  .made .navigationExpressionIndexer rfl <| .cons (expect_grown rfl (by decide) _) <|
    .cons (expect_grown rfl (by decide) _) <| .cons (expect_grown rfl (by decide) _) <| .done _ _

theorem navigation_grown (c : Cursor) : (navigation c).Grows c [some (navigation c).value] := by
  refine .made .navigationExpression rfl ?_
  refine .cons (expect_grown rfl (by decide) _) ?_
  refine .cons (qualifiedName_grown .propertyName _) ?_
  refine .seen ?_
  refine .cons (optional_grown fun _ => indexer_grown _) ?_
  refine .cons (expect_grown rfl (by decide) _) ?_
  exact .cons (expectName_grown _) <| .done _ _

theorem navigatedSelector_grown (c : Cursor) :
    (navigatedSelector c).Grows c [some (navigatedSelector c).value] :=
  .made .selectorWithNavigationExpression rfl <| .cons (selector_grown _) <| .seen <|
    .cons (optional_grown fun _ => navigation_grown _) <| .done _ _

/-! ## Values -/

theorem contentOf_grown {count : Nat} (h : count ≤ c.ahead.length) :
    (bracedValue.contentOf count c).Grows c [some (bracedValue.contentOf count c).value] :=
  (contentOf_puts h).grows (by decide)

theorem bracedValue_grown (c : Cursor) : (bracedValue c).Grows c [some (bracedValue c).value] := by
  by_cases h : c.kind = .leftBrace
  · have hx := bracedValue_braced h
    refine .made .propertyValueWithBraces (congrArg Outcome.value hx) ?_
    rw [hx]
    exact .cons (take_grown _) <| .seen <|
      .cons (contentOf_grown (bracedLength_le ..)) <|
      .cons (expect_grown rfl (by decide) _) <| .done _ _
  · have hx := bracedValue_bare h
    refine .made .propertyValueWithBraces (congrArg Outcome.value hx) ?_
    rw [hx]
    exact .cons (Grown.token (.refl c)) <| Grown.cons (.token (.refl c)) <|
      Grown.cons (.token (.refl c)) <| .nil c

theorem value_grown (context : Run.Context) (c : Cursor) :
    (value context c).Grows c [some (value context c).value] := by
  by_cases h : c.kind = .leftBrace ∧ context ≠ .evaluation
  · rw [value_braced h.1 h.2]
    exact bracedValue_grown c
  · have hx := value_plain h
    refine .made (.propertyValue context) (congrArg Outcome.value hx) ?_
    rw [hx]
    exact .seen <| .cons (contentOf_grown (valueLength_le ..)) <| .done _ _

/-! ## Declarations -/

theorem rule_grown (c : Cursor) : (rule c).Grows c [some (rule c).value] := by
  refine .made .rule rfl ?_
  refine .cons (qualifiedName_grown .propertyName _) ?_
  refine .cons (expect_grown rfl (by decide) _) ?_
  refine .cons (value_grown _ _) ?_
  refine .cons (qualifier_grown _) ?_
  exact .cons (expect_grown rfl (by decide) _) <| .done _ _

theorem transitionArguments_grown (c : Cursor) :
    (transitionArguments c).Grows c [some (transitionArguments c).value] := by
  have hname (c : Cursor) (h : nameStarts.contains c.kind) : c.kind.isName :=
    contains_nameStarts _ ▸ h
  have hlist (c : Cursor) := @separated_grown .transitionArgument
    (fun c => nameStarts.contains c.kind) (takeAs .identifier)
    (fun c h => (name_item .plain (SlotRole.admits_plain ..) (hname c h)).reads)
    (fun c h => takeName_grown (hname c h)) c
  exact .made .transitionArgumentList rfl <| .cons (expect_grown rfl (by decide) _) <|
    .cons (hlist _) <| .cons (expect_grown rfl (by decide) _) <| .done _ _

theorem transition_grown (c : Cursor) :
    (transition c).Grows c [some (transition c).value] := by
  refine .made .transition rfl ?_
  refine .cons (take_grown _) ?_
  refine .cons (transitionArguments_grown _) ?_
  refine .cons (expect_grown rfl (by decide) _) ?_
  refine .cons (value_grown _ _) ?_
  refine .cons (qualifier_grown _) ?_
  exact .cons (expect_grown rfl (by decide) _) <| .done _ _

/-! ## Triggers -/

theorem actionSelector_grown (c : Cursor) :
    (actionSelector c).Grows c [(actionSelector c).value] :=
  @optional_grown c (decide (c.kind = .leftParen)) parenthesizedSelector fun _ =>
    parenthesizedSelector_grown c

theorem acceptSemicolon_grown (c : Cursor) :
    (accept .semicolon c).Grows c [(accept .semicolon c).value] :=
  (accept_puts (by decide) c).grows (by decide)

theorem action_grown (h : actionStarts.contains c.kind) :
    (action c).Grows c [some (action c).value] := by
  have hcases : c.kind = .playStoryboardKeyword ∨ c.kind = .playSfxKeyword ∨
      c.kind = .setKeyword := by
    simpa [contains_actionStarts] using h
  rcases hcases with hk | hk | hk
  · have hx := action_playStoryboard hk
    refine .made .playStoryboardTriggerAction (congrArg Outcome.value hx) ?_
    rw [hx]
    exact .cons (take_grown _) <| .cons (actionSelector_grown _) <|
      .cons (value_grown _ _) <| .cons (acceptSemicolon_grown _) <| .done _ _
  · have hx := action_playSfx hk
    refine .made .playSfxTriggerAction (congrArg Outcome.value hx) ?_
    rw [hx]
    exact .cons (take_grown _) <| .cons (value_grown _ _) <|
      .cons (acceptSemicolon_grown _) <| .done _ _
  · have hx := action_set hk
    refine .made .setTriggerAction (congrArg Outcome.value hx) ?_
    rw [hx]
    exact .cons (expect_grown rfl (by decide) _) <| .cons (qualifiedName_grown .propertyName _) <|
      .cons (actionSelector_grown _) <| .cons (value_grown _ _) <|
      .cons (acceptSemicolon_grown _) <| .done _ _

theorem actions_grown (c : Cursor) :
    (block actionStarts action c).Grows c [some (block actionStarts action c).value] :=
  block_grown .trigger (fun _ => action_item) (fun _ => action_grown) c

theorem comparison_grown (c : Cursor) : (comparison c).Grows c [some (comparison c).value] :=
  (comparison_puts c).grows (by decide)

theorem evaluation_grown (c : Cursor) : (evaluation c).Grows c [some (evaluation c).value] :=
  .made .propertyTriggerEvaluation rfl <| .cons (qualifiedName_grown .propertyName _) <|
    .cons (comparison_grown _) <| .cons (value_grown _ _) <| .done _ _

theorem evaluations_grown (c : Cursor) :
    (evaluations c).Grows c [Draft.list (evaluations c).value] := by
  have hlist := @separated_grown .evaluation evaluationStarts evaluation
    (fun c h => (evaluation_item (Bool.and_eq_true_iff.mp h).1).reads)
    (fun c _ => evaluation_grown c) c
  rw [evaluations_apply]
  exact hlist

theorem propertyTrigger_grown (c : Cursor) :
    (propertyTrigger c).Grows c [some (propertyTrigger c).value] := by
  have hx := propertyTrigger_apply c
  refine .made .propertyTrigger (congrArg Outcome.value hx) ?_
  rw [hx]
  exact .cons (expect_grown rfl (by decide) _) <| .cons (expect_grown rfl (by decide) _) <|
    .cons (evaluations_grown _) <| .cons (qualifier_grown _) <|
    .cons (actions_grown _) <| .done _ _

theorem eventArgument_grown (c : Cursor) :
    (eventArgument c).Grows c [some (eventArgument c).value] := by
  have htake := take_grown c
  by_cases hknown : c.kind = .handledKeyword ∨ c.kind = .setHandledKeyword
  · rw [eventArgument_known hknown]
    exact htake
  · rw [eventArgument_unknown (not_or.mp hknown).1 (not_or.mp hknown).2]
    exact htake

theorem eventArguments_grown (c : Cursor) :
    (eventArguments c).Grows c [some (eventArguments c).value] := by
  have hlist (c : Cursor) := @separated_grown .eventArgument (fun c => c.kind.isName)
    eventArgument (fun _ h => (eventArgument_item h).reads) (fun c _ => eventArgument_grown c) c
  exact .made .eventTriggerArgumentList rfl <| .cons (take_grown _) <|
    .cons (hlist _) <| .cons (expect_grown rfl (by decide) _) <| .done _ _

theorem eventTrigger_grown (c : Cursor) :
    (eventTrigger c).Grows c [some (eventTrigger c).value] := by
  refine .made .eventTrigger rfl ?_
  refine .cons (expect_grown rfl (by decide) _) ?_
  refine .cons (expect_grown rfl (by decide) _) ?_
  refine .cons (qualifiedName_grown .eventName _) ?_
  refine .seen ?_
  refine .cons (optional_grown fun _ => eventArguments_grown _) ?_
  refine .cons (qualifier_grown _) ?_
  exact .cons (actions_grown _) <| .done _ _

theorem trigger_grown (c : Cursor) : (trigger c).Grows c [some (trigger c).value] := by
  by_cases h : c.kindAt 1 = .eventKeyword
  · have hx : trigger c = eventTrigger c := by simp [Parsing.trigger, holds, look, h]
    rw [hx]
    exact eventTrigger_grown c
  · have hx : trigger c = propertyTrigger c := by simp [Parsing.trigger, holds, look, h]
    rw [hx]
    exact propertyTrigger_grown c

/-! ## Storyboards -/

theorem keyframe_grown (c : Cursor) : (keyframe c).Grows c [some (keyframe c).value] := by
  refine .made .animationKeyframe rfl ?_
  refine .cons (expect_grown rfl (by decide) _) ?_
  refine .cons (expect_grown rfl (by decide) _) ?_
  refine .cons (optionalName_grown _) ?_
  exact .cons (bracedValue_grown _) <| .done _ _

theorem animation_grown (c : Cursor) : (animation c).Grows c [some (animation c).value] := by
  have hbody (c : Cursor) := block_grown .animation (fun _ => keyframe_item)
    (fun c _ => keyframe_grown c) c
  refine .made .animation rfl ?_
  refine .cons (expect_grown rfl (by decide) _) ?_
  refine .cons (qualifiedName_grown .propertyName _) ?_
  refine .seen ?_
  refine .cons (optional_grown fun _ => navigation_grown _) ?_
  exact .cons (hbody _) <| .done _ _

theorem target_grown (c : Cursor) : (target c).Grows c [some (target c).value] := by
  have hbody (c : Cursor) := block_grown .target (fun _ => animation_item)
    (fun c _ => animation_grown c) c
  refine .made .storyboardTarget rfl ?_
  refine .cons (expect_grown rfl (by decide) _) ?_
  refine .cons (optionalName_grown _) ?_
  refine .seen ?_
  refine .cons (optional_grown fun _ => parenthesizedSelector_grown _) ?_
  exact .cons (hbody _) <| .done _ _

theorem storyboard_grown (c : Cursor) : (storyboard c).Grows c [some (storyboard c).value] := by
  have hloop (c : Cursor) (h : nameStarts.contains c.kind) :
      (loopBehavior c).Grows c [some (loopBehavior c).value] :=
    (loopBehavior_puts (contains_nameStarts _ ▸ h)).grows (by decide)
  have hbody (c : Cursor) := block_grown .storyboard (fun _ => target_item)
    (fun c _ => target_grown c) c
  refine .made .storyboard rfl ?_
  refine .cons (expect_grown rfl (by decide) _) ?_
  refine .cons (expectName_grown _) ?_
  refine .seen ?_
  refine .cons (optional_grown (hloop _)) ?_
  exact .cons (hbody _) <| .done _ _

/-! ## Style sheets -/

theorem ruleSetItem_grown (c : Cursor) : (ruleSetItem c).Grows c [some (ruleSetItem c).value] := by
  by_cases ht : c.kind = .triggerKeyword
  · rw [ruleSetItem_trigger ht]
    exact trigger_grown c
  by_cases hn : c.kind = .transitionKeyword ∧ c.kindAt 1 = .leftParen
  · rw [ruleSetItem_transition hn.1 hn.2]
    exact transition_grown c
  · rw [ruleSetItem_rule ht hn]
    exact rule_grown c

theorem ruleSet_grown (c : Cursor) : (ruleSet c).Grows c [some (ruleSet c).value] := by
  have hselectors (c : Cursor) := @separated_grown .selector
    (fun c => partStarts.contains c.kind) navigatedSelector
    (fun _ h => (navigatedSelector_item h).reads) (fun c _ => navigatedSelector_grown c) c
  have hbody (c : Cursor) := block_grown .ruleSet (fun _ => ruleSetItem_item)
    (fun c _ => ruleSetItem_grown c) c
  refine .made .ruleSet rfl ?_
  refine .cons (hselectors _) ?_
  exact .cons (hbody _) <| .done _ _

theorem item_grown (h : c.kind ≠ .eof) : (item c).Grows c [some (item c).value] := by
  by_cases ht : c.kind = .triggerKeyword
  · have htrigger := trigger_grown c
    rw [item_trigger ht]
    exact htrigger
  by_cases ha : c.kind = .atSign
  · rw [item_storyboard ha]
    exact storyboard_grown c
  rw [item_other ht ha]
  split
  · exact ruleSet_grown c
  · exact unexpected_grown .documentError h

theorem documentStep_grown (c : Cursor) (d : Draft) (hd : (documentStep c).value = some d) :
    (documentStep c).Grows c [some d] := by
  rw [documentStep_apply] at hd ⊢
  split at hd
  · cases hd
  · next he =>
    cases hd
    rw [if_neg he]
    exact item_grown he

end Stylesheet.Production

namespace Stylesheet

open Production

/-- Every node of a text's draft but its root is made where it stands. -/
theorem grown_draftOf (ls : Lexemes) :
    (Slots.ofList (draftOf ls).value).EverywhereFrom Made (.ofLexemes ls) := by
  have hitems := many_grown documentStep_steps documentStep_grown (.ofLexemes ls)
  have hall := (Slots.everywhereFrom_append [Draft.list (many documentStep (.ofLexemes ls)).value]
    [some (Draft.single .eof (many documentStep (.ofLexemes ls)).rest.final)]).mpr
      ⟨hitems.nodes, trivial, trivial⟩
  rw [draftOf, document_apply]
  exact hall

/-- What all nodes have that are made somewhere, all nodes of a parse but its root have. -/
theorem everywhere_of_made {Q : Kind → Slots Kind Token → Prop}
    (h : ∀ c kind slots, Made c kind slots → Q kind (slots.map id Piece.token)) (text : Text) :
    (parse text).tree.slots.Everywhere Q := by
  show ((Slots.ofList (draftOf (Lexemes.scan text)).value).map id Piece.token).Everywhere Q
  rw [Slots.everywhere_map]
  exact (grown_draftOf (Lexemes.scan text)).everywhere h

end Stylesheet
