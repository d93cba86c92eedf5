import Stylesheet.Proofs.Pairing.Declarations
import Stylesheet.Proofs.Pairing.Selectors
import Stylesheet.Proofs.Reading.Sheets

/-!
# Style sheets side by side

Results:
* `Pairing.steady_trigger`: triggers, the known and unknown arguments of their events included.
* `Pairing.steady_loopBehavior`: the one word whose text is read; it decides on a warning only.
* `Pairing.steady_item`: what can stand in a style sheet.
-/
namespace Stylesheet.Pairing

open Production

variable {K : Pairing} {c c' : Cursor}

/-! ## Actions -/

theorem steady_actionSelector (K : Pairing) :
    K.Steady (Option.map Draft.shape) 1 0 actionSelector :=
  .look (by omega) (K.sees_is .leftParen) fun _ =>
    K.steady_parenthesizedSelector.optional.weaken (by omega) (by omega)

theorem steady_action (K : Pairing) : K.Steady Draft.shape 1 2 action := by
  refine .look (by omega) K.sees_kind fun kind => ?_
  split
  · refine .bind (by omega) K.steady_take fun keyword keyword' hk => ?_
    refine .bind (by omega) K.steady_actionSelector fun target target' ht => ?_
    refine .bind (by decide) (K.steady_value .action) fun content content' hc => ?_
    refine .bind (by omega) (K.steady_accept .semicolon) fun semicolon semicolon' hs => .done rfl ?_
    exact Draft.shape_composite_congr _ (by simp [hk, ht, hc, hs])
  · refine .bind (by omega) K.steady_take fun keyword keyword' hk => ?_
    refine .bind (by decide) (K.steady_value .action) fun content content' hc => ?_
    refine .bind (by omega) (K.steady_accept .semicolon) fun semicolon semicolon' hs => .done rfl ?_
    exact Draft.shape_composite_congr _ (by simp [hk, hc, hs])
  · refine Steady.weaken (k := 1) (j := 3) ?_ (by omega) (by omega)
    refine .bind (by omega) (K.steady_expect .setKeyword) fun keyword keyword' hk => ?_
    refine .bind (by omega) (K.steady_qualifiedName .propertyName) fun property property' hp => ?_
    refine .bind (by omega) K.steady_actionSelector fun target target' ht => ?_
    refine .bind (by decide) (K.steady_value .action) fun content content' hc => ?_
    refine .bind (by omega) (K.steady_accept .semicolon) fun semicolon semicolon' hs => .done rfl ?_
    exact Draft.shape_composite_congr _ (by simp [hk, hp, ht, hc, hs])

/-! ## Triggers -/

theorem steady_comparison (K : Pairing) : K.Steady Draft.shape 0 1 comparison :=
  .look (by omega) (K.sees_kind.comp Kind.isComparison) fun _ =>
    .ite (fun _ => K.steady_take) fun _ => K.steady_lacking .equals rfl 0 1

theorem steady_evaluation (K : Pairing) : K.Steady Draft.shape 2 3 evaluation := by
  refine .bind (by omega) (K.steady_qualifiedName .propertyName) fun property property' hp => ?_
  refine .bind (by omega) K.steady_comparison fun operator operator' ho => ?_
  refine .bind (by decide) (K.steady_value .evaluation) fun content content' hc => .done rfl ?_
  exact Draft.shape_composite_congr _ (by simp [hp, ho, hc])

theorem steady_propertyTrigger (K : Pairing) : K.Steady Draft.shape 0 4 propertyTrigger := by
  have hevaluations : K.Steady (List.map Draft.shape) 2 0 (separated .evaluation
      (fun c => c.kind.isName && c.kind ≠ .importantKeyword) evaluation) :=
    steady_separated (by omega) (by omega)
      (K.sees_kind.comp fun k => k.isName && decide (k ≠ .importantKeyword)) K.steady_evaluation
  refine .bind (by omega) (K.steady_expect .triggerKeyword) fun trigger trigger' ht => ?_
  refine .bind (by omega) (K.steady_expect .propertyKeyword) fun property property' hp => ?_
  refine .bind (by omega) hevaluations fun items items' hi => ?_
  have hrest : K.Together Draft.shape 0 2
      (qualifier >>= fun mark => block actionStarts action >>= fun body =>
        pure (.composite .propertyTrigger [trigger, property, Draft.list items, mark, body]))
      (qualifier >>= fun mark => block actionStarts action >>= fun body =>
        pure (.composite .propertyTrigger [trigger', property', Draft.list items', mark, body])) := by
    refine .bind (by omega) K.steady_qualifier fun mark mark' hm => ?_
    refine .bind (by omega) (steady_block (by omega) K.steady_action) fun body body' hb =>
      .done rfl ?_
    exact Draft.shape_composite_congr _ (by simp [ht, hp, Draft.shape_list hi, hm, hb])
  rw [Draft.isEmpty_congr hi]
  refine .ite (fun _ => ?_) fun _ => hrest
  exact .bind (by omega) (K.steady_reportGap rfl 0 0) fun _ _ _ => hrest

theorem steady_eventArgument (K : Pairing) : K.Steady Draft.shape 0 1 eventArgument := by
  refine .look (by omega) (K.sees_kind.comp fun k => decide (k = .handledKeyword) ||
    decide (k = .setHandledKeyword)) fun known => ?_
  cases known with
  | true => exact K.steady_take
  | false =>
    exact K.steady_report_text (p := .unknownEventArgument) (fun _ => rfl) (fun _ _ => rfl)
      fun _ => K.steady_take

theorem steady_eventArguments (K : Pairing) : K.Steady Draft.shape 0 2 eventArguments := by
  have harguments : K.Steady (List.map Draft.shape) 1 0
      (separated .eventArgument (·.kind.isName) eventArgument) :=
    steady_separated (by omega) (by omega) (K.sees_kind.comp Kind.isName) K.steady_eventArgument
  refine .bind (by omega) K.steady_take fun opening opening' ho => ?_
  refine .bind (by omega) harguments fun items items' hi => .first ?_
  refine .bind (by omega) (K.steady_expect .rightParen) fun closing closing' hc => .done rfl ?_
  exact Draft.shape_composite_congr _ (by simp [ho, hc, Draft.shape_list hi])

theorem steady_eventTrigger (K : Pairing) : K.Steady Draft.shape 0 5 eventTrigger := by
  refine .bind (by omega) (K.steady_expect .triggerKeyword) fun trigger trigger' ht => ?_
  refine .bind (by omega) (K.steady_expect .eventKeyword) fun eventKeyword eventKeyword' hk => ?_
  refine .bind (by omega) (K.steady_qualifiedName .eventName) fun event event' he => ?_
  refine .look (by omega) (K.sees_is .leftParen) fun _ =>
    .bind (by omega) K.steady_eventArguments.optional fun arguments arguments' ha => ?_
  refine .bind (by omega) K.steady_qualifier fun mark mark' hm => ?_
  refine .bind (by omega) (steady_block (by omega) K.steady_action) fun body body' hb =>
    .done rfl ?_
  exact Draft.shape_composite_congr _ (by simp [ht, hk, he, ha, hm, hb])

theorem steady_trigger (K : Pairing) : K.Steady Draft.shape 0 4 trigger :=
  .look (by omega) ((K.sees_kindAt 1).comp fun k => decide (k = .eventKeyword)) fun _ =>
    .ite (fun _ => K.steady_eventTrigger.weaken (by omega) (by omega))
      fun _ => K.steady_propertyTrigger

/-! ## Storyboards -/

theorem steady_keyframe (K : Pairing) : K.Steady Draft.shape 0 5 keyframe := by
  refine .bind (by omega) (K.steady_expect .keyframeKeyword) fun keyword keyword' hk => ?_
  refine .bind (by omega) (K.steady_expect .number) fun time time' ht => ?_
  refine .bind (by omega) K.steady_optionalName fun easing easing' he => ?_
  refine .bind (by omega) K.steady_bracedValue fun content content' hc => .done rfl ?_
  exact Draft.shape_composite_congr _ (by simp [hk, ht, he, hc])

theorem steady_animation (K : Pairing) : K.Steady Draft.shape 0 4 animation := by
  refine .bind (by omega) (K.steady_expect .animationKeyword) fun keyword keyword' hk => ?_
  refine .bind (by omega) (K.steady_qualifiedName .propertyName) fun property property' hp => ?_
  refine .look (by omega) (K.sees_is .pipe) fun _ =>
    .bind (by omega) K.steady_navigation.optional fun path path' hn => ?_
  refine .bind (by omega) (steady_block (by omega) K.steady_keyframe) fun body body' hb =>
    .done rfl ?_
  exact Draft.shape_composite_congr _ (by simp [hk, hp, hn, hb])

theorem steady_target (K : Pairing) : K.Steady Draft.shape 0 3 target := by
  refine .bind (by omega) (K.steady_expect .targetKeyword) fun keyword keyword' hk => ?_
  refine .bind (by omega) K.steady_optionalName fun type type' ht => ?_
  refine .look (by omega) (K.sees_is .leftParen) fun _ =>
    .bind (by omega) K.steady_parenthesizedSelector.optional fun inner inner' hi => ?_
  refine .bind (by omega) (steady_block (by omega) K.steady_animation) fun body body' hb =>
    .done rfl ?_
  exact Draft.shape_composite_congr _ (by simp [hk, ht, hi, hb])

theorem loopBehavior_apply (c : Cursor) :
    loopBehavior c = ⟨(takeAs .identifier c).value, (takeAs .identifier c).rest,
      c.loopReports ++ (takeAs .identifier c).reports, (takeAs .identifier c).faults⟩ := by
  cases h : isLoopBehavior c.next.text <;>
    simp [Parsing.loopBehavior, Cursor.loopReports, look, report, h]

/-- A word's text decides on a warning, and on nothing else. -/
theorem steady_loopBehavior (K : Pairing) : K.Steady Draft.shape 0 1 loopBehavior := by
  intro c c'
  have hgood (hg : (loopBehavior c).Good) : (takeAs .identifier c).Good := by
    rw [loopBehavior_apply] at hg
    exact ⟨fun d hd => hg.clean d (List.mem_append_right _ hd), hg.faultless⟩
  refine ⟨fun hg => ?_, fun hc hg => ?_⟩
  · have hreads := (K.steady_takeAs .identifier c c).reads (hgood hg)
    rwa [loopBehavior_apply]
  · have hg : K.Whole ∨ (takeAs .identifier c).Good := hg.imp_right fun hg => hgood hg.1
    obtain ⟨hvalue, hrest, hreports⟩ := (K.steady_takeAs .identifier c c').same hc
      (hg.imp_right fun hg => ⟨hg, Nat.zero_le _⟩)
    rw [loopBehavior_apply, loopBehavior_apply]
    refine ⟨hvalue, hrest, K.alike_append ?_ hreports⟩
    obtain ⟨i, rfl, rfl, -⟩ := hc
    refine K.alike_loop i (hg.imp_right fun hg => ?_)
    have := (K.steady_takeAs .identifier (K.first.advance i) (K.second.advance i)).reads hg
    rw [Cursor.length_advance] at this
    omega

theorem steady_storyboard (K : Pairing) : K.Steady Draft.shape 0 4 storyboard := by
  refine .bind (by omega) (K.steady_expect .atSign) fun atSign atSign' ha => ?_
  refine .bind (by omega) K.steady_expectName fun name name' hn => ?_
  refine .look (by omega) (K.sees_contains nameStarts) fun _ =>
    .bind (by omega) K.steady_loopBehavior.optional fun behavior behavior' hl => ?_
  refine .bind (by omega) (steady_block (by omega) K.steady_target) fun body body' hb =>
    .done rfl ?_
  exact Draft.shape_composite_congr _ (by simp [ha, hn, hl, hb])

/-! ## Items -/

theorem steady_ruleSetItem (K : Pairing) : K.Steady Draft.shape 1 4 ruleSetItem := by
  refine .look (by omega) K.sees_kind fun kind => ?_
  split
  · exact K.steady_trigger.weaken (by omega) (by omega)
  · exact .look (by omega) ((K.sees_kindAt 1).comp fun k => decide (k = .leftParen)) fun _ =>
      .ite (fun _ => K.steady_transition.weaken (by omega) (by omega)) fun _ => K.steady_rule
  · exact K.steady_rule

theorem steady_ruleSet (K : Pairing) : K.Steady Draft.shape 0 2 ruleSet := by
  have hselectors : K.Steady (List.map Draft.shape) 1 0
      (separated .selector (fun c => partStarts.contains c.kind) navigatedSelector) :=
    steady_separated (by omega) (by omega) (K.sees_contains partStarts) K.steady_navigatedSelector
  refine .bind (by omega) hselectors fun items items' hi => .first ?_
  refine .bind (by omega) (steady_block (by omega) K.steady_ruleSetItem) fun body body' hb =>
    .done rfl ?_
  exact Draft.shape_composite_congr _ (by simp [Draft.shape_list hi, hb])

theorem steady_item (K : Pairing) : K.Steady Draft.shape 0 2 item := by
  refine .look (by omega) K.sees_kind fun kind => ?_
  split
  · exact K.together_report rfl fun _ => K.steady_trigger
  · exact K.steady_storyboard.weaken (by omega) (by omega)
  · exact .look (by omega) (K.sees_contains partStarts) fun _ =>
      .ite (fun _ => K.steady_ruleSet) fun _ => K.steady_unexpected itemStarts (by omega)

theorem steady_documentStep (K : Pairing) :
    K.Steady (Option.map Draft.shape) 1 0 documentStep :=
  .look (by omega) (K.sees_is .eof) fun _ =>
    .ite (fun _ _ _ => .done rfl rfl)
      fun _ => (steady_some K.steady_item).weaken (by omega) (by omega)

end Stylesheet.Pairing
