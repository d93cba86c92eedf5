import Stylesheet.Proofs.Pairing.Sheets
import Stylesheet.Proofs.Unclosed.Loops

/-!
# Productions without their last braces

Nothing but a block and a value in braces looks for a closing brace. What a production looks for
some lexemes on is neither a brace nor the end, a plain value ends at both, and what stands between
braces goes as far as the shorter text does.

Results:
* `Run.valueLength_braces`: a plain value ends at the end of the text where a brace ended it.
* `Run.bracedLength_eq_min`: what is between braces ends with the text, if not before.
* `Unclosed.steady_bracedValue`, `Unclosed.steady_value`, `Unclosed.steady_selector`,
  `Unclosed.steady_trigger`, `Unclosed.steady_storyboard`.
* `Unclosed.steady_documentStep`: one item of a style sheet.
-/
namespace Stylesheet

/-! ## Counts -/

namespace Run

/-- What stands between braces ends where it did, or with the text. -/
theorem bracedLength_eq_min (depth : Nat) (ls more : List Lexeme) :
    bracedLength depth ls = min (bracedLength depth (ls ++ more)) ls.length := by
  induction ls generalizing depth with
  | nil => simp [bracedLength]
  | cons l ls ih =>
    rw [List.cons_append, List.length_cons]
    unfold bracedLength
    split
    · rw [Nat.zero_min]
    all_goals rw [ih, Nat.add_min_add_right]

variable {braces : List Lexeme} {context : Context} {first : Bool}

theorem comparesNext_braces (hb : ∀ l ∈ braces, l.kind = .rightBrace) (ls : List Lexeme) :
    comparesNext (ls ++ braces) = comparesNext ls := by
  have hcompares := Unclosed.view_append Kind.isComparison rfl hb ls
  have hperiod := Unclosed.view_append (fun k => decide (k = .period)) rfl hb ls 0
  rw [comparesNext, comparesNext, hcompares 0, hcompares 2, hperiod]

theorem endsValue_braces (hb : ∀ l ∈ braces, l.kind = .rightBrace) (k : Kind) (ls : List Lexeme) :
    endsValue context first k (ls ++ braces) = endsValue context first k ls := by
  have hkeyword : decide (Lexeme.kindAt (ls ++ braces) 0 = .importantKeyword)
      = decide (Lexeme.kindAt ls 0 = .importantKeyword) :=
    Unclosed.view_append (fun k => decide (k = .importantKeyword)) rfl hb ls 0
  unfold endsValue
  simp only [comparesNext_braces hb, hkeyword]

/-- The end of a text ends a plain value where a closing brace did. -/
theorem valueLength_braces (hb : ∀ l ∈ braces, l.kind = .rightBrace) (ls : List Lexeme) :
    valueLength context first (ls ++ braces) = valueLength context first ls := by
  induction ls generalizing first with
  | nil =>
    cases braces with
    | nil => rfl
    | cons l rest => simp [valueLength, endsValue, hb l (List.mem_cons_self ..)]
  | cons l ls ih => rw [List.cons_append, valueLength, valueLength, endsValue_braces hb, ih]

end Run

namespace Unclosed

open Production

variable {stop e : Nat} {c c' : Cursor}

/-! ## Selectors -/

theorem steady_touchingName : Steady stop LeftDraft touchingName :=
  fun c c' e => .look_same
    (fun hm => hm.touching contains_nameStarts_end.1 contains_nameStarts_end.2)
    (.ite (fun _ => steady_takeAs .identifier c c' e) fun _ => .of_bad (bad_absent .identifier c))

theorem steady_touchingMark : Steady stop (LeftOption LeftDraft) touchingMark :=
  fun c c' e => .look_same
    (fun hm => hm.touching (f := fun k => decide (k = .exclamationMark)) rfl rfl)
    (steady_take.optional c c' e)

theorem steady_subPart : Steady stop LeftDraft subPart := by
  intro c c' e
  have hmarked : Parallel stop LeftDraft ⟨c'.ahead.length, e⟩ e c c'
      (take >>= fun mark => touchingName >>= fun name => touchingMark >>= fun trailing =>
        pure (Draft.composite .selectorSubPart [some mark, some name, trailing]))
      (take >>= fun mark => touchingName >>= fun name => touchingMark >>= fun trailing =>
        pure (Draft.composite .selectorSubPart [some mark, some name, trailing])) := by
    refine .bind (steady_take c c' e) fun mark mark' c₁ c₁' e₁ hm => ?_
    refine .bind (steady_touchingName c₁ c₁' e₁) fun name name' c₂ c₂' e₂ hn => ?_
    refine .bind (steady_touchingMark c₂ c₂' e₂) fun trailing trailing' c₃ c₃' e₃ ht => ?_
    exact .done (.composite (.cons (.some hm) (.cons (.some hn) (.single ht))))
  refine .look_kind rfl ?_
  split
  · refine .bind (steady_take c c' e) fun colon colon' c₁ c₁' e₁ hc => ?_
    refine .bind (steady_touchingName c₁ c₁' e₁) fun name name' c₂ c₂' e₂ hn => ?_
    exact .done (.composite (.cons (.some hc) (.single (.some hn))))
  · exact hmarked
  · exact hmarked
  · refine .bind (steady_take c c' e) fun star star' c₁ c₁' e₁ hs => ?_
    refine .bind (steady_touchingMark c₁ c₁' e₁) fun trailing trailing' c₂ c₂' e₂ ht => ?_
    exact .done (.composite (.cons .none (.cons (.some hs) (.single ht))))
  · refine .bind (steady_expectName c c' e) fun name name' c₁ c₁' e₁ hn => ?_
    refine .bind (steady_touchingMark c₁ c₁' e₁) fun trailing trailing' c₂ c₂' e₂ ht => ?_
    exact .done (.composite (.cons .none (.cons (.some hn) (.single ht))))

theorem steady_selectorPart : Steady stop LeftDraft selectorPart := by
  intro c c' e
  refine .bind (steady_subPart c c' e) fun first first' c₁ c₁' e₁ hfirst => ?_
  have hstep : Steady stop (LeftOption LeftDraft)
      (holds (fun c => c.touching && partMarks.contains c.kind) >>= fun b => optional b subPart) :=
    fun c c' e => .look_same (fun hm => hm.touching (f := partMarks.contains) rfl rfl)
      (steady_subPart.optional c c' e)
  refine .bind (steady_many hstep c₁ c₁' e₁) fun more more' c₂ c₂' e₂ hmore => ?_
  exact .done (.composite (.single (LeftDraft.list (.cons hfirst hmore))))

theorem steady_selector : Steady stop LeftDraft selector := by
  intro c c' e
  have hstep : Steady stop (LeftOption LeftDraft)
      (seesAny combinators >>= fun b => if b = true then some <$> take
        else seesAny partStarts >>= fun b => optional b selectorPart) :=
    fun c c' e => .look_same (fun hm => hm.contains rfl)
      (.ite (fun _ => (steady_take c c' e).map .some) fun _ =>
        .look_same (fun hm => hm.contains rfl) (steady_selectorPart.optional c c' e))
  refine .bind (steady_many hstep c c' e) fun components components' c₁ c₁' e₁ hc => ?_
  rw [← hc.isEmpty_eq]
  exact .ite (fun _ => .of_bad (Pairing.not_good_bind (bad_reportGap rfl c₁)))
    fun _ => .done (.composite (.single (LeftDraft.list hc)))

theorem steady_parenthesizedSelector : Steady stop LeftDraft parenthesizedSelector := by
  intro c c' e
  refine .bind (steady_expect .leftParen c c' e) fun opening opening' c₁ c₁' e₁ ho => ?_
  refine .bind (steady_selector c₁ c₁' e₁) fun inner inner' c₂ c₂' e₂ hi => ?_
  refine .bind (steady_expect .rightParen c₂ c₂' e₂) fun closing closing' c₃ c₃' e₃ hc => ?_
  exact .done (.composite (.cons (.some ho) (.cons (.some hi) (.single (.some hc)))))

theorem steady_indexer : Steady stop LeftDraft indexer := by
  intro c c' e
  refine .bind (steady_expect .leftBracket c c' e) fun opening opening' c₁ c₁' e₁ ho => ?_
  refine .bind (steady_expect .number c₁ c₁' e₁) fun index index' c₂ c₂' e₂ hi => ?_
  refine .bind (steady_expect .rightBracket c₂ c₂' e₂) fun closing closing' c₃ c₃' e₃ hc => ?_
  exact .done (.composite (.cons (.some ho) (.cons (.some hi) (.single (.some hc)))))

theorem steady_navigation : Steady stop LeftDraft navigation := by
  intro c c' e
  refine .bind (steady_expect .pipe c c' e) fun pipe pipe' c₁ c₁' e₁ hp => ?_
  refine .bind (steady_qualifiedName .propertyName c₁ c₁' e₁)
    fun property property' c₂ c₂' e₂ hn => ?_
  refine .look_same (fun hm => hm.sees (by decide) (by decide)) ?_
  refine .bind (steady_indexer.optional c₂ c₂' e₂) fun index index' c₃ c₃' e₃ hi => ?_
  refine .bind (steady_expect .asKeyword c₃ c₃' e₃) fun asKeyword asKeyword' c₄ c₄' e₄ ha => ?_
  refine .bind (steady_expectName c₄ c₄' e₄) fun type type' c₅ c₅' e₅ ht => ?_
  exact .done (.composite (.cons (.some hp) (.cons (.some hn) (.cons hi (.cons (.some ha)
    (.single (.some ht)))))))

theorem steady_navigatedSelector : Steady stop LeftDraft navigatedSelector := by
  intro c c' e
  refine .bind (steady_selector c c' e) fun inner inner' c₁ c₁' e₁ hi => ?_
  refine .look_same (fun hm => hm.sees (by decide) (by decide)) ?_
  refine .bind (steady_navigation.optional c₁ c₁' e₁) fun path path' c₂ c₂' e₂ hp => ?_
  exact .done (.composite (.cons (.some hi) (.single hp)))

/-! ## Values -/

/-- So many lexemes as a value, where the shorter text has all of them or ends with them. -/
theorem parallel_contentOf {count : Nat} (h : 0 < count → c'.ahead ≠ []) :
    Parallel stop LeftDraft ⟨c'.ahead.length, e⟩ e c c' (bracedValue.contentOf count)
      (bracedValue.contentOf (min count c'.ahead.length)) := by
  unfold bracedValue.contentOf Parsing.bracedValue.contentOf
  by_cases hc : count = 0
  · rw [if_pos hc]
    exact .of_bad (bad_absent .propertyValueToken c)
  · have hpos := List.length_pos_iff.mpr (h (Nat.pos_of_ne_zero hc))
    rw [if_neg hc, if_neg (by omega)]
    exact parallel_takeRun

theorem Meets.bracedLength (h : Meets stop c c') :
    Run.bracedLength 0 c'.ahead = min (Run.bracedLength 0 c.ahead) c'.ahead.length := by
  obtain ⟨braces, hahead, -⟩ := h.ahead
  rw [hahead]
  exact Run.bracedLength_eq_min 0 c'.ahead braces

/-- What is between braces does not start with a closing one. -/
theorem Meets.ne_nil_of_braced (h : Meets stop c c') (hpos : 0 < Run.bracedLength 0 c.ahead) :
    c'.ahead ≠ [] := by
  intro hnil
  obtain ⟨braces, hahead, hb⟩ := h.ahead
  rw [hahead, hnil, List.nil_append] at hpos
  cases braces with
  | nil => exact absurd hpos (Nat.lt_irrefl 0)
  | cons l rest =>
    simp [Run.bracedLength, hb l (List.mem_cons_self ..)] at hpos

theorem steady_bracedValue : Steady stop LeftDraft bracedValue := by
  intro c c' e
  refine .look_same (fun hm => hm.sees (by decide) (by decide)) (.ite (fun _ => ?_) fun _ => ?_)
  · refine .bind (steady_take c c' e) fun opening opening' c₁ c₁' e₁ ho => ?_
    refine .look fun hm => ?_
    rw [hm.bracedLength]
    refine .bind (parallel_contentOf hm.ne_nil_of_braced) fun content content' c₂ c₂' e₂ hv => ?_
    refine .bind (steady_expect .rightBrace c₂ c₂' e₂) fun closing closing' c₃ c₃' e₃ hc => ?_
    exact .done (.composite (.cons (.some ho) (.cons (.some hv) (.single (.some hc)))))
  · exact .of_bad (Pairing.not_good_bind (bad_absent .leftBrace c))

theorem Meets.valueLength (h : Meets stop c c') (context : Run.Context) :
    Run.valueLength context true c.ahead = Run.valueLength context true c'.ahead := by
  obtain ⟨braces, hahead, hb⟩ := h.ahead
  rw [hahead]
  exact Run.valueLength_braces hb c'.ahead

theorem steady_contentOf (count : Nat) : Steady stop LeftDraft (bracedValue.contentOf count) := by
  intro c c' e
  unfold bracedValue.contentOf Parsing.bracedValue.contentOf
  by_cases hc : count = 0
  · rw [if_pos hc]
    exact .of_bad (bad_absent .propertyValueToken c)
  · rw [if_neg hc]
    exact steady_takeRun .propertyValueToken count c c' e

theorem steady_value (context : Run.Context) : Steady stop LeftDraft (value context) := by
  intro c c' e
  refine .look_same (fun hm => hm.view
    (fun k => decide (k = .leftBrace) && decide (context ≠ .evaluation)) rfl 0) ?_
  refine .ite (fun _ => steady_bracedValue c c' e) fun _ => ?_
  refine .look_same (fun hm => hm.valueLength context) ?_
  refine .bind (steady_contentOf _ c c' e) fun content content' c₁ c₁' e₁ hc => ?_
  exact .done (.composite (.single (.some hc)))

/-! ## Declarations -/

theorem steady_rule : Steady stop LeftDraft rule := by
  intro c c' e
  refine .bind (steady_qualifiedName .propertyName c c' e) fun property property' c₁ c₁' e₁ hp => ?_
  refine .bind (steady_expect .colon c₁ c₁' e₁) fun colon colon' c₂ c₂' e₂ hcolon => ?_
  refine .bind (steady_value .declaration c₂ c₂' e₂) fun content content' c₃ c₃' e₃ hcontent => ?_
  refine .bind (steady_qualifier c₃ c₃' e₃) fun mark mark' c₄ c₄' e₄ hmark => ?_
  refine .bind (steady_expect .semicolon c₄ c₄' e₄) fun semicolon semicolon' c₅ c₅' e₅ hs => ?_
  exact .done (.composite (.cons (.some hp) (.cons (.some hcolon) (.cons (.some hcontent)
    (.cons hmark (.single (.some hs)))))))

theorem steady_transitionArguments : Steady stop LeftDraft transitionArguments := by
  intro c c' e
  refine .bind (steady_expect .leftParen c c' e) fun opening opening' c₁ c₁' e₁ ho => ?_
  refine .bind (steady_separated Meets.contains_nameStarts (steady_takeAs .identifier) c₁ c₁' e₁)
    fun items items' c₂ c₂' e₂ hi => ?_
  refine .first (.bind (steady_expect .rightParen c₂ c₂' e₂) fun closing closing' c₃ c₃' e₃ hc => ?_)
  exact .done (.composite (.cons (.some ho) (.cons (LeftDraft.list hi) (.single (.some hc)))))

theorem steady_transition : Steady stop LeftDraft transition := by
  intro c c' e
  refine .bind (steady_take c c' e) fun keyword keyword' c₁ c₁' e₁ hk => ?_
  refine .bind (steady_transitionArguments c₁ c₁' e₁) fun arguments arguments' c₂ c₂' e₂ ha => ?_
  refine .bind (steady_expect .colon c₂ c₂' e₂) fun colon colon' c₃ c₃' e₃ hcolon => ?_
  refine .bind (steady_value .declaration c₃ c₃' e₃) fun content content' c₄ c₄' e₄ hcontent => ?_
  refine .bind (steady_qualifier c₄ c₄' e₄) fun mark mark' c₅ c₅' e₅ hmark => ?_
  refine .bind (steady_expect .semicolon c₅ c₅' e₅) fun semicolon semicolon' c₆ c₆' e₆ hs => ?_
  exact .done (.composite (.cons (.some hk) (.cons (.some ha) (.cons (.some hcolon)
    (.cons (.some hcontent) (.cons hmark (.single (.some hs))))))))

/-! ## Actions -/

theorem steady_actionSelector : Steady stop (LeftOption LeftDraft) actionSelector :=
  fun c c' e => .look_same (fun hm => hm.sees (by decide) (by decide))
    (steady_parenthesizedSelector.optional c c' e)

theorem steady_action : Steady stop LeftDraft action := by
  intro c c' e
  refine .look_kind rfl ?_
  split
  · refine .bind (steady_take c c' e) fun keyword keyword' c₁ c₁' e₁ hk => ?_
    refine .bind (steady_actionSelector c₁ c₁' e₁) fun target target' c₂ c₂' e₂ ht => ?_
    refine .bind (steady_value .action c₂ c₂' e₂) fun content content' c₃ c₃' e₃ hc => ?_
    refine .bind (steady_accept (by decide) (by decide) c₃ c₃' e₃)
      fun semicolon semicolon' c₄ c₄' e₄ hs => ?_
    exact .done (.composite (.cons (.some hk) (.cons ht (.cons (.some hc) (.single hs)))))
  · refine .bind (steady_take c c' e) fun keyword keyword' c₁ c₁' e₁ hk => ?_
    refine .bind (steady_value .action c₁ c₁' e₁) fun content content' c₂ c₂' e₂ hc => ?_
    refine .bind (steady_accept (by decide) (by decide) c₂ c₂' e₂)
      fun semicolon semicolon' c₃ c₃' e₃ hs => ?_
    exact .done (.composite (.cons (.some hk) (.cons (.some hc) (.single hs))))
  · refine .bind (steady_expect .setKeyword c c' e) fun keyword keyword' c₁ c₁' e₁ hk => ?_
    refine .bind (steady_qualifiedName .propertyName c₁ c₁' e₁)
      fun property property' c₂ c₂' e₂ hp => ?_
    refine .bind (steady_actionSelector c₂ c₂' e₂) fun target target' c₃ c₃' e₃ ht => ?_
    refine .bind (steady_value .action c₃ c₃' e₃) fun content content' c₄ c₄' e₄ hc => ?_
    refine .bind (steady_accept (by decide) (by decide) c₄ c₄' e₄)
      fun semicolon semicolon' c₅ c₅' e₅ hs => ?_
    exact .done (.composite (.cons (.some hk) (.cons (.some hp) (.cons ht (.cons (.some hc)
      (.single hs))))))

theorem steady_actions : Steady stop LeftDraft (block actionStarts action) :=
  steady_block (by decide) steady_action

/-! ## Triggers -/

theorem steady_comparison : Steady stop LeftDraft comparison :=
  fun c c' e => .look_same (fun hm => hm.view Kind.isComparison rfl 0)
    (.ite (fun _ => steady_take c c' e) fun _ => .of_bad (bad_lacking _ rfl c))

theorem steady_evaluation : Steady stop LeftDraft evaluation := by
  intro c c' e
  refine .bind (steady_qualifiedName .propertyName c c' e) fun property property' c₁ c₁' e₁ hp => ?_
  refine .bind (steady_comparison c₁ c₁' e₁) fun operator operator' c₂ c₂' e₂ ho => ?_
  refine .bind (steady_value .evaluation c₂ c₂' e₂) fun content content' c₃ c₃' e₃ hc => ?_
  exact .done (.composite (.cons (.some hp) (.cons (.some ho) (.single (.some hc)))))

theorem steady_propertyTrigger : Steady stop LeftDraft propertyTrigger := by
  intro c c' e
  refine .bind (steady_expect .triggerKeyword c c' e) fun trigger trigger' c₁ c₁' e₁ ht => ?_
  refine .bind (steady_expect .propertyKeyword c₁ c₁' e₁) fun property property' c₂ c₂' e₂ hp => ?_
  refine .bind (steady_separated (fun hm => hm.view
    (fun k => k.isName && decide (k ≠ .importantKeyword)) rfl 0) steady_evaluation c₂ c₂' e₂)
    fun items items' c₃ c₃' e₃ hi => ?_
  rw [← hi.isEmpty_eq]
  refine .ite (fun _ => .of_bad (Pairing.not_good_bind (bad_reportGap rfl c₃))) fun _ => ?_
  refine .first (.bind (steady_qualifier c₃ c₃' e₃) fun mark mark' c₄ c₄' e₄ hm => ?_)
  refine .bind (steady_actions c₄ c₄' e₄) fun body body' c₅ c₅' e₅ hb => ?_
  exact .done (.composite (.cons (.some ht) (.cons (.some hp) (.cons (LeftDraft.list hi)
    (.cons hm (.single (.some hb)))))))

theorem steady_eventArgument : Steady stop LeftDraft eventArgument := by
  intro c c' e
  refine .look_same (fun hm => hm.view
    (fun k => decide (k = .handledKeyword) || decide (k = .setHandledKeyword)) rfl 0) ?_
  split
  · exact .of_bad (bad_look (p := Problem.unknownEventArgument) (fun _ => rfl) c)
  · exact steady_take c c' e

theorem steady_eventArguments : Steady stop LeftDraft eventArguments := by
  intro c c' e
  refine .bind (steady_take c c' e) fun opening opening' c₁ c₁' e₁ ho => ?_
  refine .bind (steady_separated (fun hm => hm.view Kind.isName rfl 0) steady_eventArgument
    c₁ c₁' e₁) fun items items' c₂ c₂' e₂ hi => ?_
  refine .first (.bind (steady_expect .rightParen c₂ c₂' e₂) fun closing closing' c₃ c₃' e₃ hc => ?_)
  exact .done (.composite (.cons (.some ho) (.cons (LeftDraft.list hi) (.single (.some hc)))))

theorem steady_eventTrigger : Steady stop LeftDraft eventTrigger := by
  intro c c' e
  refine .bind (steady_expect .triggerKeyword c c' e) fun trigger trigger' c₁ c₁' e₁ ht => ?_
  refine .bind (steady_expect .eventKeyword c₁ c₁' e₁) fun keyword keyword' c₂ c₂' e₂ hk => ?_
  refine .bind (steady_qualifiedName .eventName c₂ c₂' e₂) fun event event' c₃ c₃' e₃ he => ?_
  refine .look_same (fun hm => hm.sees (by decide) (by decide)) ?_
  refine .bind (steady_eventArguments.optional c₃ c₃' e₃)
    fun arguments arguments' c₄ c₄' e₄ ha => ?_
  refine .bind (steady_qualifier c₄ c₄' e₄) fun mark mark' c₅ c₅' e₅ hm => ?_
  refine .bind (steady_actions c₅ c₅' e₅) fun body body' c₆ c₆' e₆ hb => ?_
  exact .done (.composite (.cons (.some ht) (.cons (.some hk) (.cons (.some he) (.cons ha
    (.cons hm (.single (.some hb))))))))

theorem steady_trigger : Steady stop LeftDraft trigger :=
  fun c c' e => .look_same (fun hm => hm.view (fun k => decide (k = .eventKeyword)) rfl 1)
    (.ite (fun _ => steady_eventTrigger c c' e) fun _ => steady_propertyTrigger c c' e)

/-! ## Storyboards -/

theorem steady_keyframe : Steady stop LeftDraft keyframe := by
  intro c c' e
  refine .bind (steady_expect .keyframeKeyword c c' e) fun keyword keyword' c₁ c₁' e₁ hk => ?_
  refine .bind (steady_expect .number c₁ c₁' e₁) fun time time' c₂ c₂' e₂ ht => ?_
  refine .bind (steady_optionalName c₂ c₂' e₂) fun easing easing' c₃ c₃' e₃ he => ?_
  refine .bind (steady_bracedValue c₃ c₃' e₃) fun content content' c₄ c₄' e₄ hc => ?_
  exact .done (.composite (.cons (.some hk) (.cons (.some ht) (.cons he (.single (.some hc))))))

theorem steady_animation : Steady stop LeftDraft animation := by
  intro c c' e
  refine .bind (steady_expect .animationKeyword c c' e) fun keyword keyword' c₁ c₁' e₁ hk => ?_
  refine .bind (steady_qualifiedName .propertyName c₁ c₁' e₁)
    fun property property' c₂ c₂' e₂ hp => ?_
  refine .look_same (fun hm => hm.sees (by decide) (by decide)) ?_
  refine .bind (steady_navigation.optional c₂ c₂' e₂) fun path path' c₃ c₃' e₃ hn => ?_
  refine .bind (steady_block (by simp) steady_keyframe c₃ c₃' e₃) fun body body' c₄ c₄' e₄ hb => ?_
  exact .done (.composite (.cons (.some hk) (.cons (.some hp) (.cons hn (.single (.some hb))))))

theorem steady_target : Steady stop LeftDraft target := by
  intro c c' e
  refine .bind (steady_expect .targetKeyword c c' e) fun keyword keyword' c₁ c₁' e₁ hk => ?_
  refine .bind (steady_optionalName c₁ c₁' e₁) fun type type' c₂ c₂' e₂ ht => ?_
  refine .look_same (fun hm => hm.sees (by decide) (by decide)) ?_
  refine .bind (steady_parenthesizedSelector.optional c₂ c₂' e₂)
    fun inner inner' c₃ c₃' e₃ hi => ?_
  refine .bind (steady_block (by simp) steady_animation c₃ c₃' e₃) fun body body' c₄ c₄' e₄ hb => ?_
  exact .done (.composite (.cons (.some hk) (.cons ht (.cons hi (.single (.some hb))))))

/-- The one word whose text is read: it is there in both texts. -/
theorem steady_loopBehavior : Steady stop LeftDraft loopBehavior := by
  intro c c' e hm hg hf
  rw [Pairing.loopBehavior_apply] at hg hf
  have hne : c'.ahead ≠ [] := List.length_pos_iff.mp (faults_takeRun_nil hf).2
  have hreports : c.loopReports = c'.loopReports := by
    rw [Cursor.loopReports, Cursor.loopReports, hm.next_eq hne, hm.span_eq hne]
  have hwarnings : Diagnostic.errors c'.loopReports = [] ∧
      Diagnostic.warnings c'.loopReports = c'.loopReports := by
    unfold Cursor.loopReports
    split <;> exact ⟨rfl, rfl⟩
  have hsame := @steady_takeAs stop .identifier c c' e hm
    ⟨fun d hd => hg.clean d (List.mem_append_right _ hd), hg.faultless⟩ hf
  rw [Pairing.loopBehavior_apply, Pairing.loopBehavior_apply]
  refine ⟨?_, hsame.rest, ?_, ?_⟩
  · rw [Diagnostic.errors_append, hwarnings.1, List.nil_append]
    exact hsame.value
  · rw [Diagnostic.errors_append, hwarnings.1, List.nil_append]
    exact hsame.errors
  · rw [Diagnostic.warnings_append, hwarnings.2, hsame.warnings, hreports]

theorem steady_storyboard : Steady stop LeftDraft storyboard := by
  intro c c' e
  refine .bind (steady_expect .atSign c c' e) fun atSign atSign' c₁ c₁' e₁ ha => ?_
  refine .bind (steady_expectName c₁ c₁' e₁) fun name name' c₂ c₂' e₂ hn => ?_
  refine .look_same Meets.contains_nameStarts ?_
  refine .bind (steady_loopBehavior.optional c₂ c₂' e₂) fun behavior behavior' c₃ c₃' e₃ hl => ?_
  refine .bind (steady_block (by simp) steady_target c₃ c₃' e₃) fun body body' c₄ c₄' e₄ hb => ?_
  exact .done (.composite (.cons (.some ha) (.cons (.some hn) (.cons hl (.single (.some hb))))))

/-! ## Items -/

theorem steady_ruleSetItem : Steady stop LeftDraft ruleSetItem := by
  intro c c' e
  refine .look_kind rfl ?_
  split
  · exact steady_trigger c c' e
  · exact .look_same (fun hm => hm.view (fun k => decide (k = .leftParen)) rfl 1)
      (.ite (fun _ => steady_transition c c' e) fun _ => steady_rule c c' e)
  · exact steady_rule c c' e

theorem contains_partStarts_end :
    partStarts.contains .rightBrace = partStarts.contains .eof := by
  decide

theorem steady_ruleSet : Steady stop LeftDraft ruleSet := by
  intro c c' e
  refine .bind (steady_separated (fun hm => hm.contains contains_partStarts_end)
    steady_navigatedSelector c c' e) fun items items' c₁ c₁' e₁ hi => ?_
  refine .first (.bind (steady_block (contains_nameStarts_end.1.trans contains_nameStarts_end.2.symm)
    steady_ruleSetItem c₁ c₁' e₁) fun body body' c₂ c₂' e₂ hb => ?_)
  exact .done (.composite (.cons (LeftDraft.list hi) (.single (.some hb))))

theorem steady_item : Steady stop LeftDraft item := by
  intro c c' e
  refine .look_kind rfl ?_
  split
  · exact .of_bad (Pairing.not_good_bind (bad_report rfl c))
  · exact steady_storyboard c c' e
  · exact .look_same (fun hm => hm.contains contains_partStarts_end)
      (.ite (fun _ => steady_ruleSet c c' e) fun _ => .of_bad (bad_unexpected itemStarts c))

/-- Outside of all blocks a closing brace is an error. -/
theorem bad_item (h : c.kind = .rightBrace) : ¬(item c).Good := by
  have hitem : item c = unexpected itemStarts c := by
    have hstarts : partStarts.contains .rightBrace = false := by decide
    simp [Parsing.item, look, seesAny, holds, h, hstarts]
  rw [hitem]
  exact bad_unexpected itemStarts c

theorem steady_documentStep : Steady stop (LeftOption LeftDraft) documentStep := by
  intro c c' e
  refine .look fun hm => ?_
  by_cases hb : c.kind = .rightBrace
  · rw [decide_eq_false (by simp [hb])]
    refine .of_bad fun hg => bad_item hb ?_
    rw [if_neg (by simp), map_apply] at hg
    exact ⟨hg.clean, hg.faultless⟩
  · rw [← hm.kind_eq_of_ne hb]
    exact .ite (fun _ => .done .none) fun _ => (steady_item c c' e).map .some

end Unclosed

end Stylesheet
