import Stylesheet.Proofs.Making.Rules

/-!
# What each production makes

Each production of the grammar makes on a builder what it drafts.

Results:
* `Parser.makes_block`, `Parser.makes_separated`: from what an item makes.
* `Parser.makes_item`: what can stand in a style sheet.
-/
namespace Stylesheet.Parser

open Carrier

variable {item : Production Draft} {item' : Parser ElementId} {used : List Twin}

/-! ## Names -/

theorem makes_expectName : Makes one [] Production.expectName Parsing.expectName :=
  .seesAny _ fun _ => .ite (.takeAs rfl) (.absent rfl)

theorem makes_optionalName :
    Makes one.option [] Production.optionalName Parsing.optionalName :=
  .seesAny _ fun b => .optional (.takeAs rfl) b

theorem makes_qualifiedName {kind : Kind} (hk : kind.isComposite) (hc : kind.slotCount? = some 3) :
    Makes one [] (Production.qualifiedName kind) (Parsing.qualifiedName kind) := by
  refine makes_expectName.andThen fun first => .holds _ fun _ => .ite ?_ ?_
  · refine .andThen .take fun period => .andThen (.takeAs rfl) fun name => ?_
    exact .node [some first, some period, some name] hk (by rw [hc]; rfl) rfl
  · exact .node [none, none, some first] hk (by rw [hc]; rfl) rfl

theorem makes_qualifier : Makes one.option [] Production.qualifier Parsing.qualifier := by
  refine .look _ fun kind => ?_
  split
  · exact .some .take
  · exact .holds _ fun b => .optional (.takeRun rfl 2) b
  · exact .pure (C := one.option) none

/-! ## Blocks and separated lists -/

theorem makes_unexpected (starts : KindSet) :
    Makes one [] (Production.unexpected starts) (Parsing.unexpected starts) := by
  refine .look _ fun kind => .andThen (.report _) fun _ => .look _ fun count => ?_
  exact .andThen (.takeEach count) fun skipped => .row skipped rfl rfl

theorem makes_block (starts : KindSet) (h : Makes one [] item item') :
    Makes one [] (Production.block starts item) (Parsing.block starts item') := by
  refine .sees _ fun _ => .ite ?_ ?_
  · refine .andThen .take fun opening => .andThen (C := one.list) (.many ?_) fun items => ?_
    · refine .sees _ fun _ => .sees _ fun _ => .ite (.pure (C := one.option) none) ?_
      exact .seesAny _ fun _ => .ite h.some (makes_unexpected starts).some
    · refine .bind [opening] (.list items) fun content => ?_
      refine .andThen (.expect rfl) fun closing => ?_
      exact .node [some opening, content, some closing] rfl rfl (by cases content <;> rfl)
  · refine .andThen (.absent rfl) fun opening => .andThen (.missing rfl) fun closing => ?_
    exact .node [some opening, none, some closing] rfl rfl rfl

theorem makes_separated (listed : Listed) (starts : Cursor → Bool) (h : Makes one [] item item') :
    Makes one.list [] (Production.separated listed starts item)
      (Parsing.separated listed starts item') := by
  refine .andThen (C := one.list.list) (.many ?_) fun groups => ?_
  · refine .holds _ fun _ => .ite ?_ (.pure (C := one.list.option) none)
    refine h.andThen fun first => .sees _ fun _ => .ite ?_ (.holds _ fun _ => .ite ?_ ?_)
    · refine .andThen .take fun comma => .holds _ fun b => ?_
      have hpair := Makes.pure (C := one.list.option) (some [first, comma])
      cases b with
      | false => exact .andThen (.report _) fun _ => hpair
      | true => exact hpair
    · refine .andThen (.absent rfl) fun comma => ?_
      exact .pure (C := one.list.option) (some [first, comma])
    · exact .pure (C := one.list.option) (some [first])
  · exact .give groups.flatten List.map_flatten List.map_flatten (by simp [Carrier.list, one])

/-! ## Selectors -/

theorem makes_touchingName : Makes one [] Production.touchingName Parsing.touchingName :=
  .holds _ fun _ => .ite (.takeAs rfl) (.absent rfl)

theorem makes_touchingMark : Makes one.option [] Production.touchingMark Parsing.touchingMark :=
  .holds _ fun b => .optional .take b

theorem makes_subPart : Makes one [] Production.subPart Parsing.subPart := by
  have hmarked : Makes one []
      (Production.take >>= fun mark => Production.touchingName >>= fun name =>
        Production.touchingMark >>= fun trailing =>
          Parsing.node .selectorSubPart [some mark, some name, trailing])
      (Parsing.take >>= fun mark => Parsing.touchingName >>= fun name =>
        Parsing.touchingMark >>= fun trailing =>
          (Parsing.node .selectorSubPart [some mark, some name, trailing] : Parser ElementId)) := by
    refine .andThen .take fun mark => makes_touchingName.andThen fun name => ?_
    refine makes_touchingMark.andThen fun trailing => ?_
    exact .node [some mark, some name, trailing] rfl rfl (by cases trailing <;> rfl)
  refine .look _ fun kind => ?_
  split
  · refine .andThen .take fun colon => makes_touchingName.andThen fun name => ?_
    exact .node [some colon, some name] rfl rfl rfl
  · exact hmarked
  · exact hmarked
  · refine .andThen .take fun star => makes_touchingMark.andThen fun trailing => ?_
    exact .node [none, some star, trailing] rfl rfl (by cases trailing <;> rfl)
  · refine makes_expectName.andThen fun name => makes_touchingMark.andThen fun trailing => ?_
    exact .node [none, some name, trailing] rfl rfl (by cases trailing <;> rfl)

theorem makes_selectorPart : Makes one [] Production.selectorPart Parsing.selectorPart := by
  refine makes_subPart.andThen fun first => .andThen (C := one.list) (.many ?_) fun more => ?_
  · exact .holds _ fun b => makes_subPart.optional b
  · refine .bind [] (.list (first :: more)) fun subParts => ?_
    exact .node [subParts] rfl rfl (by cases subParts <;> rfl)

theorem makes_selector : Makes one [] Production.selector Parsing.selector := by
  refine .andThen (C := one.list) (.many ?_) fun components => ?_
  · refine .seesAny _ fun _ => .ite (.some .take) ?_
    exact .seesAny _ fun b => makes_selectorPart.optional b
  · have hlist : Makes one (one.list.held components)
        (Parsing.list (one.list.draft components) >>= fun slot => Parsing.node .selector [slot])
        (Parsing.list (one.list.id components) >>= fun slot =>
          (Parsing.node .selector [slot] : Parser ElementId)) := by
      refine .bind [] (.list components) fun slot => ?_
      exact .node [slot] rfl rfl (by cases slot <;> rfl)
    cases components with
    | nil => exact .andThen (.reportGap _) fun _ => hlist
    | cons => exact hlist

theorem makes_parenthesizedSelector :
    Makes one [] Production.parenthesizedSelector Parsing.parenthesizedSelector := by
  refine .andThen (.expect rfl) fun opening => makes_selector.andThen fun inner => ?_
  refine .andThen (.expect rfl) fun closing => ?_
  exact .node [some opening, some inner, some closing] rfl rfl rfl

theorem makes_indexer : Makes one [] Production.indexer Parsing.indexer := by
  refine .andThen (.expect rfl) fun opening => .andThen (.expect rfl) fun index => ?_
  refine .andThen (.expect rfl) fun closing => ?_
  exact .node [some opening, some index, some closing] rfl rfl rfl

theorem makes_navigation : Makes one [] Production.navigation Parsing.navigation := by
  refine .andThen (.expect rfl) fun pipe => ?_
  refine .andThen (makes_qualifiedName rfl rfl) fun property => ?_
  refine .sees _ fun b => .andThen (makes_indexer.optional b) fun index => ?_
  refine .andThen (.expect rfl) fun asKeyword => makes_expectName.andThen fun type => ?_
  exact .node [some pipe, some property, index, some asKeyword, some type] rfl rfl
    (by cases index <;> rfl)

theorem makes_navigatedSelector :
    Makes one [] Production.navigatedSelector Parsing.navigatedSelector := by
  refine makes_selector.andThen fun inner => .sees _ fun b => ?_
  refine .andThen (makes_navigation.optional b) fun path => ?_
  exact .node [some inner, path] rfl rfl (by cases path <;> rfl)

/-! ## Declarations -/

theorem makes_contentOf (count : Nat) :
    Makes one [] (Production.bracedValue.contentOf count)
      (Parsing.bracedValue.contentOf count) := by
  unfold Production.bracedValue.contentOf Parsing.bracedValue.contentOf
  split
  · exact .absent rfl
  · exact .takeRun rfl count

theorem makes_bracedValue : Makes one [] Production.bracedValue Parsing.bracedValue := by
  refine .sees _ fun _ => .ite ?_ ?_
  · refine .andThen .take fun opening => .look _ fun count => ?_
    refine (makes_contentOf count).andThen fun content => .andThen (.expect rfl) fun closing => ?_
    exact .node [some opening, some content, some closing] rfl rfl rfl
  · refine .andThen (.absent rfl) fun opening => .andThen (.missing rfl) fun content => ?_
    refine .andThen (.missing rfl) fun closing => ?_
    exact .node [some opening, some content, some closing] rfl rfl rfl

theorem makes_value (context : Run.Context) :
    Makes one [] (Production.value context) (Parsing.value context) := by
  refine .holds _ fun _ => .ite makes_bracedValue (.look _ fun count => ?_)
  refine (makes_contentOf count).andThen fun content => ?_
  exact .node [some content] rfl rfl rfl

theorem makes_rule : Makes one [] Production.rule Parsing.rule := by
  refine .andThen (makes_qualifiedName rfl rfl) fun property => ?_
  refine .andThen (.expect rfl) fun colon => ?_
  refine (makes_value .declaration).andThen fun content => makes_qualifier.andThen fun mark => ?_
  refine .andThen (.expect rfl) fun semicolon => ?_
  exact .node [some property, some colon, some content, mark, some semicolon] rfl rfl
    (by cases mark <;> rfl)

theorem makes_transitionArguments :
    Makes one [] Production.transitionArguments Parsing.transitionArguments := by
  refine .andThen (.expect rfl) fun opening => ?_
  refine (makes_separated _ _ (.takeAs rfl)).andThen fun items => ?_
  refine .bind [opening] (.list items) fun arguments => ?_
  refine .andThen (.expect rfl) fun closing => ?_
  exact .node [some opening, arguments, some closing] rfl rfl (by cases arguments <;> rfl)

theorem makes_transition : Makes one [] Production.transition Parsing.transition := by
  refine .andThen .take fun keyword => makes_transitionArguments.andThen fun arguments => ?_
  refine .andThen (.expect rfl) fun colon => (makes_value .declaration).andThen fun content => ?_
  refine makes_qualifier.andThen fun mark => .andThen (.expect rfl) fun semicolon => ?_
  exact .node [some keyword, some arguments, some colon, some content, mark, some semicolon] rfl rfl
    (by cases mark <;> rfl)

/-! ## Triggers -/

theorem makes_actionSelector :
    Makes one.option [] Production.actionSelector Parsing.actionSelector :=
  .sees _ fun b => makes_parenthesizedSelector.optional b

theorem makes_action : Makes one [] Production.action Parsing.action := by
  refine .look _ fun kind => ?_
  split
  · refine .andThen .take fun keyword => makes_actionSelector.andThen fun target => ?_
    refine (makes_value .action).andThen fun content => .andThen (.accept _) fun semicolon => ?_
    exact .node [some keyword, target, some content, semicolon] rfl rfl
      (by cases target <;> cases semicolon <;> rfl)
  · refine .andThen .take fun keyword => (makes_value .action).andThen fun content => ?_
    refine .andThen (.accept _) fun semicolon => ?_
    exact .node [some keyword, some content, semicolon] rfl rfl (by cases semicolon <;> rfl)
  · refine .andThen (.expect rfl) fun keyword => ?_
    refine .andThen (makes_qualifiedName rfl rfl) fun property => ?_
    refine makes_actionSelector.andThen fun target => ?_
    refine (makes_value .action).andThen fun content => .andThen (.accept _) fun semicolon => ?_
    exact .node [some keyword, some property, target, some content, semicolon] rfl rfl
      (by cases target <;> cases semicolon <;> rfl)

theorem makes_comparison : Makes one [] Production.comparison Parsing.comparison :=
  .holds _ fun _ => .ite .take (.lacking rfl _)

theorem makes_evaluation : Makes one [] Production.evaluation Parsing.evaluation := by
  refine .andThen (makes_qualifiedName rfl rfl) fun property => ?_
  refine makes_comparison.andThen fun operator => ?_
  refine (makes_value .evaluation).andThen fun content => ?_
  exact .node [some property, some operator, some content] rfl rfl rfl

theorem makes_actions : Makes one [] (Production.block Production.actionStarts Production.action)
    (Parsing.block Production.actionStarts Parsing.action) :=
  makes_block _ makes_action

theorem makes_propertyTrigger :
    Makes one [] Production.propertyTrigger Parsing.propertyTrigger := by
  refine .andThen (.expect rfl) fun triggerKeyword => ?_
  refine .andThen (.expect rfl) fun propertyKeyword => ?_
  refine (makes_separated _ _ makes_evaluation).andThen fun items => ?_
  have hrest : Makes one ([triggerKeyword, propertyKeyword] ++ one.list.held items)
      (Parsing.list (one.list.draft items) >>= fun evaluations =>
        Production.qualifier >>= fun mark =>
        Production.block Production.actionStarts Production.action >>= fun body =>
          Parsing.node .propertyTrigger
            [some triggerKeyword.1, some propertyKeyword.1, evaluations, mark, some body])
      (Parsing.list (one.list.id items) >>= fun evaluations => Parsing.qualifier >>= fun mark =>
        Parsing.block Production.actionStarts Parsing.action >>= fun body =>
          (Parsing.node .propertyTrigger
            [some triggerKeyword.2, some propertyKeyword.2, evaluations, mark, some body] :
              Parser ElementId)) := by
    refine .bind _ (.list items) fun evaluations => makes_qualifier.andThen fun mark => ?_
    refine makes_actions.andThen fun body => ?_
    exact .node [some triggerKeyword, some propertyKeyword, evaluations, mark, some body] rfl rfl
      (by cases evaluations <;> cases mark <;> rfl)
  cases items with
  | nil => exact .andThen (.reportGap _) fun _ => hrest
  | cons => exact hrest

theorem makes_eventArgument : Makes one [] Production.eventArgument Parsing.eventArgument := by
  refine .holds _ fun known => ?_
  cases known with
  | false => exact .look _ fun word => .andThen (.report _) fun _ => .take
  | true => exact .take

theorem makes_eventArguments : Makes one [] Production.eventArguments Parsing.eventArguments := by
  refine .andThen .take fun opening => ?_
  refine (makes_separated _ _ makes_eventArgument).andThen fun items => ?_
  refine .bind [opening] (.list items) fun arguments => ?_
  refine .andThen (.expect rfl) fun closing => ?_
  exact .node [some opening, arguments, some closing] rfl rfl (by cases arguments <;> rfl)

theorem makes_eventTrigger : Makes one [] Production.eventTrigger Parsing.eventTrigger := by
  refine .andThen (.expect rfl) fun triggerKeyword => .andThen (.expect rfl) fun eventKeyword => ?_
  refine .andThen (makes_qualifiedName rfl rfl) fun event => .sees _ fun b => ?_
  refine .andThen (makes_eventArguments.optional b) fun arguments => ?_
  refine makes_qualifier.andThen fun mark => makes_actions.andThen fun body => ?_
  exact .node [some triggerKeyword, some eventKeyword, some event, arguments, mark, some body]
    rfl rfl (by cases arguments <;> cases mark <;> rfl)

theorem makes_trigger : Makes one [] Production.trigger Parsing.trigger :=
  .holds _ fun _ => .ite makes_eventTrigger makes_propertyTrigger

/-! ## Storyboards -/

theorem makes_keyframe : Makes one [] Production.keyframe Parsing.keyframe := by
  refine .andThen (.expect rfl) fun keyword => .andThen (.expect rfl) fun time => ?_
  refine makes_optionalName.andThen fun easing => makes_bracedValue.andThen fun content => ?_
  exact .node [some keyword, some time, easing, some content] rfl rfl (by cases easing <;> rfl)

theorem makes_animation : Makes one [] Production.animation Parsing.animation := by
  refine .andThen (.expect rfl) fun keyword => ?_
  refine .andThen (makes_qualifiedName rfl rfl) fun property => ?_
  refine .sees _ fun b => .andThen (makes_navigation.optional b) fun path => ?_
  refine (makes_block _ makes_keyframe).andThen fun body => ?_
  exact .node [some keyword, some property, path, some body] rfl rfl (by cases path <;> rfl)

theorem makes_target : Makes one [] Production.target Parsing.target := by
  refine .andThen (.expect rfl) fun keyword => makes_optionalName.andThen fun type => ?_
  refine .sees _ fun b => .andThen (makes_parenthesizedSelector.optional b) fun inner => ?_
  refine (makes_block _ makes_animation).andThen fun body => ?_
  exact .node [some keyword, type, inner, some body] rfl rfl (by cases type <;> cases inner <;> rfl)

theorem makes_loopBehavior : Makes one [] Production.loopBehavior Parsing.loopBehavior :=
  .look _ fun _ => .ite (.andThen (.report _) fun _ => .takeAs rfl) (.takeAs rfl)

theorem makes_storyboard : Makes one [] Production.storyboard Parsing.storyboard := by
  refine .andThen (.expect rfl) fun atSign => makes_expectName.andThen fun name => ?_
  refine .seesAny _ fun b => .andThen (makes_loopBehavior.optional b) fun behavior => ?_
  refine (makes_block _ makes_target).andThen fun body => ?_
  exact .node [some atSign, some name, behavior, some body] rfl rfl (by cases behavior <;> rfl)

/-! ## Style sheets -/

theorem makes_ruleSetItem : Makes one [] Production.ruleSetItem Parsing.ruleSetItem := by
  refine .look _ fun kind => ?_
  split
  · exact makes_trigger
  · exact .holds _ fun _ => .ite makes_transition makes_rule
  · exact makes_rule

theorem makes_ruleSet : Makes one [] Production.ruleSet Parsing.ruleSet := by
  refine (makes_separated _ _ makes_navigatedSelector).andThen fun items => ?_
  refine .bind [] (.list items) fun selectors => ?_
  refine (makes_block _ makes_ruleSetItem).andThen fun body => ?_
  exact .node [selectors, some body] rfl rfl (by cases selectors <;> rfl)

theorem makes_item : Makes one [] Production.item Parsing.item := by
  refine .look _ fun kind => ?_
  split
  · exact .andThen (.report _) fun _ => makes_trigger
  · exact makes_storyboard
  · exact .seesAny _ fun _ => .ite makes_ruleSet (makes_unexpected _)

end Stylesheet.Parser
