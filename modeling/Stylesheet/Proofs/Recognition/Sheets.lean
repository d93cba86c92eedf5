import Stylesheet.Proofs.Lossless
import Stylesheet.Proofs.Recognition.Triggers

/-!
# Recognizing style sheets

Results:
* `storyboard_recognizes`, `ruleSet_recognizes`: the items of a style sheet.
* `parse_recognizes`: no error is found in the style sheets of the grammar, and in no others.
-/
namespace Stylesheet

open scoped Computability

namespace Production

open Grammar

variable {c c' : Cursor} {F : Cursor → Prop} {ss : List Sign}

/-! ## Storyboards -/

theorem keyframe_recognizes (c : Cursor) : (keyframe c).Recognizes c Grammar.keyframe F := by
  simp only [Grammar.keyframe, mul_assoc]
  exact .andThen (expect_recognizes (by decide) c) (.andThen (expect_recognizes (by decide) _)
    (.bind (optionalName_recognizes _) (.last (bracedValue_recognizes _))
      (.of_opens (opens_bracedValue.not_name rfl) fun _ h => h)))

theorem opens_keyframe : Opens Grammar.keyframe (·.kind = .keyframeKeyword) := by
  simp only [Grammar.keyframe, mul_assoc]
  exact (opens_one _).mul _

theorem animation_recognizes (c : Cursor) : (animation c).Recognizes c Grammar.animation F := by
  have hbody : Items (KindSet.singleton .keyframeKeyword) keyframe Grammar.keyframe 0 :=
    .of_recognizes (fun _ => keyframe_item) (fun c _ => keyframe_recognizes c)
      (opens_keyframe.imp fun s hs => by simp [hs]) (by decide)
  simp only [Grammar.animation, mul_assoc]
  refine .andThen (expect_recognizes (by decide) c) (.bind (qualifiedName_recognizes _ _) (.seen ?_) ?_)
  · refine .bind (optionalKind_recognizes opens_navigation fun _ => navigation_recognizes _)
      (.last (star_recognizes hbody _)) (.of_opens ((opens_braces _).ne (by decide)) fun _ h => h)
  · have hopens : Opens (maybe Grammar.navigation * braces Grammar.keyframe∗) (·.kind ≠ .period) :=
      .maybe_mul (opens_navigation.ne (by decide)) ((opens_braces _).ne (by decide))
    exact .of_opens hopens fun c hk howned => hk howned.1

theorem opens_animation : Opens Grammar.animation (·.kind = .animationKeyword) := by
  simp only [Grammar.animation, mul_assoc]
  exact (opens_one _).mul _

theorem target_recognizes (c : Cursor) : (target c).Recognizes c Grammar.target F := by
  have hbody : Items (KindSet.singleton .animationKeyword) animation Grammar.animation 0 :=
    .of_recognizes (fun _ => animation_item) (fun c _ => animation_recognizes c)
      (opens_animation.imp fun s hs => by simp [hs]) (by decide)
  simp only [Grammar.target, mul_assoc]
  refine .andThen (expect_recognizes (by decide) c) (.bind (optionalName_recognizes _) (.seen ?_) ?_)
  · exact .bind (optionalKind_recognizes (opens_parentheses _) fun _ =>
      parenthesizedSelector_recognizes _) (.last (star_recognizes hbody _))
      (.of_opens ((opens_braces _).ne (by decide)) fun _ h => h)
  · have hopens : Opens (maybe Grammar.parenthesizedSelector * braces Grammar.animation∗)
        (¬·.kind.isName) :=
      .maybe_mul ((opens_parentheses _).not_name rfl) ((opens_braces _).not_name rfl)
    exact .of_opens hopens fun _ h => h

theorem opens_target : Opens Grammar.target (·.kind = .targetKeyword) := by
  simp only [Grammar.target, mul_assoc]
  exact (opens_one _).mul _

/-- An unknown loop behavior is no error. -/
theorem loopBehavior_recognizes (h : c.kind.isName) :
    (loopBehavior c).Recognizes c name F := by
  have hname := @takeName_recognizes c F h
  cases hb : isLoopBehavior c.next.text with
  | true =>
    rw [loopBehavior_known hb]
    exact hname
  | false =>
    rw [loopBehavior_unknown hb]
    refine ⟨fun hc => hname.sound fun d hd => hc d (List.mem_cons_of_mem _ hd), fun hs hsp hF => ?_⟩
    obtain ⟨hclean, hrest⟩ := hname.complete hs hsp hF
    refine ⟨fun d hd => ?_, hrest⟩
    rcases List.mem_cons.mp hd with rfl | hd
    · rfl
    · exact hclean d hd

theorem storyboard_recognizes (c : Cursor) :
    (storyboard c).Recognizes c Grammar.storyboard F := by
  have hbody : Items (KindSet.singleton .targetKeyword) target Grammar.target 0 :=
    .of_recognizes (fun _ => target_item) (fun c _ => target_recognizes c)
      (opens_target.imp fun s hs => by simp [hs]) (by decide)
  simp only [Grammar.storyboard, mul_assoc]
  refine .andThen (expect_recognizes (by decide) c) (.andThen (expectName_recognizes _) (.seen ?_))
  refine .bind (optional_recognizes (P := fun s => s.kind.isName) ?_ opens_sign ?_ fun _ h => h)
    (.last (star_recognizes hbody _)) (.of_opens ((opens_braces _).not_name rfl) fun _ h => h)
  · show nameStarts.contains _ = true ↔ _
    rw [contains_nameStarts]
    rfl
  · exact fun h => loopBehavior_recognizes (contains_nameStarts _ ▸ h)

theorem opens_storyboard : Opens Grammar.storyboard (·.kind = .atSign) := by
  simp only [Grammar.storyboard, mul_assoc]
  exact (opens_one _).mul _

/-! ## Rule sets -/

theorem opens_rule : Opens Grammar.rule fun s => s.kind.isName ∧ s.kind ≠ .triggerKeyword :=
  (((opens_qualifiedName.mul _).mul _).mul _).starting

theorem opens_transition : Opens Grammar.transition (·.kind = .transitionKeyword) := by
  simp only [Grammar.transition, mul_assoc]
  exact (opens_one _).mul _

/-- Behind the first name of a rule comes no parenthesis, so it is not taken for a transition. -/
theorem kindAt_one_of_rule (hs : ss ∈ Grammar.rule) (hc : c.Spells ss c') :
    c.kindAt 1 ≠ .leftParen := by
  have hword := hs.1
  simp only [Grammar.qualifiedName, mul_assoc, add_mul] at hword
  intro hk
  rcases hword with hword | hword
  · exact absurd (hk.symm.trans (kindAt_one_of_mem hword hc)) (by decide)
  · exact absurd (hk.symm.trans (kindAt_one_of_mem hword hc)) (by decide)

theorem ruleSetItem_recognizes (c : Cursor) :
    (ruleSetItem c).Recognizes c (Grammar.rule + Grammar.transition + Grammar.trigger) F := by
  by_cases h : c.kind = .triggerKeyword
  · have hopens : Opens (Grammar.rule + Grammar.transition) (·.kind ≠ .triggerKeyword) :=
      (opens_rule.imp fun _ hs => hs.2).add (opens_transition.ne (by decide))
    rw [ruleSetItem_trigger h]
    exact (trigger_recognizes c).congr fun hc => (hopens.mem_add (not_not_intro h) hc).symm
  · by_cases ht : c.kind = .transitionKeyword ∧ c.kindAt 1 = .leftParen
    · rw [ruleSetItem_transition ht.1 ht.2]
      refine (transition_recognizes ht.1).congr fun hc => ?_
      rw [opens_trigger.mem_add_left h hc]
      exact ⟨.inr, fun hs => hs.elim (fun hs => absurd ht.2 (kindAt_one_of_rule hs hc)) id⟩
    · rw [ruleSetItem_rule h ht]
      refine (rule_recognizes h).congr fun hc => ?_
      rw [opens_trigger.mem_add_left h hc]
      refine ⟨.inl, fun hs => hs.elim id fun hs => absurd ⟨opens_transition.sign hs hc, ?_⟩ ht⟩
      simp only [Grammar.transition, parentheses, mul_assoc] at hs
      exact kindAt_one_of_mem hs hc

theorem navigatedSelectors_listing :
    Listing (fun c => partStarts.contains c.kind) navigatedSelector Grammar.navigatedSelector
      (fun c => c.kind ∈ [Kind.comma, .leftBrace]) fun c => c.kind = .leftBrace := by
  refine ⟨fun c h => (navigatedSelector_item h).reads, fun c h => navigatedSelector_recognizes h,
    fun ss c c' hs hc => ?_, fun ss c c' hs hc => ?_, fun c h => ⟨by simp [h], by simp [h], ?_⟩⟩
  · exact startsPart_iff.mp ((opens_starting.mul _).sign hs hc)
  · have hk : c.kind = .comma := ((opens_one _).mul _).sign hs hc
    simp [hk]
  · rw [h]
    decide

theorem ruleSet_recognizes (h : partStarts.contains c.kind) (ht : c.kind ≠ .triggerKeyword) :
    (ruleSet c).Recognizes c Grammar.ruleSet F := by
  have hopens : Opens (Grammar.rule + Grammar.transition + Grammar.trigger) fun s =>
      nameStarts.contains s.kind := by
    refine ((opens_rule.imp fun s hs => ?_).add (opens_transition.imp fun s hs => ?_)).add
      (opens_trigger.imp fun s hs => ?_)
    · exact contains_nameStarts _ ▸ hs.1
    · rw [hs]
      decide
    · rw [hs]
      decide
  have hbody : Items nameStarts ruleSetItem (Grammar.rule + Grammar.transition + Grammar.trigger) 0 :=
    .of_recognizes (fun _ => ruleSetItem_item) (fun c _ => ruleSetItem_recognizes c) hopens
      (by decide)
  have hselectors : Opens (Grammar.list Grammar.navigatedSelector) StartsPart :=
    (opens_starting.mul _).mul _
  exact .starting (.bind (separated_recognizes navigatedSelectors_listing h)
    (.given (.last (star_recognizes hbody _))) (.of_opens (opens_braces _) fun _ h => h))
    (hselectors.mul _) ht

/-! ## Style sheets -/

/-- Where an item of a style sheet starts. -/
def StartsItem (s : Sign) : Prop := s.kind = .atSign ∨ StartsPart s ∧ s.kind ≠ .triggerKeyword

theorem opens_ruleSet : Opens Grammar.ruleSet fun s => StartsPart s ∧ s.kind ≠ .triggerKeyword :=
  (((opens_starting.mul _).mul _).mul _).starting

theorem kind_ne_of_startsPart {kind : Kind} (h : StartsPart c.sign)
    (hk : partStarts.contains kind = false) : c.kind ≠ kind := by
  rintro rfl
  rw [startsPart_iff.mp h] at hk
  cases hk

theorem item_recognizes (h : StartsItem c.sign) :
    (item c).Recognizes c (Grammar.ruleSet + Grammar.storyboard) F := by
  by_cases ha : c.kind = .atSign
  · rw [item_storyboard ha]
    have hnot : ¬(StartsPart c.sign ∧ c.kind ≠ .triggerKeyword) :=
      fun hs => kind_ne_of_startsPart hs.1 (by decide) ha
    exact (storyboard_recognizes c).congr fun hc => (opens_ruleSet.mem_add hnot hc).symm
  · obtain ⟨hpart, ht⟩ := h.resolve_left ha
    have hstarts := startsPart_iff.mp hpart
    rw [item_other ht ha, if_pos hstarts]
    exact (ruleSet_recognizes hstarts ht).congr fun hc => (opens_storyboard.mem_add_left ha hc).symm

/-- What is no item is an error. -/
theorem item_not_clean (h : ¬StartsItem c.sign) (he : c.kind ≠ .eof) : ¬(item c).Clean := by
  obtain ⟨ha, hpart⟩ := not_or.mp h
  by_cases ht : c.kind = .triggerKeyword
  · rw [item_trigger ht]
    intro hc
    exact absurd (clean_bind.mp hc).1 (Outcome.not_clean (List.mem_singleton_self _) rfl)
  · have hstarts : partStarts.contains c.kind ≠ true := fun hs => hpart ⟨startsPart_iff.mpr hs, ht⟩
    rw [item_other ht ha, if_neg hstarts]
    exact unexpected_not_clean itemStarts he

theorem documentStep_loop :
    Loop documentStep (Grammar.ruleSet + Grammar.storyboard) 0 (fun _ => True)
      fun c => c.kind = .eof := by
  refine .of_items (P := StartsItem) (fun c h => ?_) (fun c h => ?_) (fun c h => item_recognizes h)
    ?_ (fun _ _ => trivial) fun c h => ⟨?_, trivial⟩
  · have he : c.kind ≠ .eof := by
      rcases h with ha | ⟨hpart, -⟩
      · have ha : c.kind = .atSign := ha
        simp [ha]
      · exact kind_ne_of_startsPart hpart (by decide)
    rw [documentStep_apply, if_neg he]
  · rw [documentStep_apply]
    split
    · exact .inl rfl
    · next he =>
      rw [map_apply]
      exact .inr (item_not_clean h he)
  · exact (opens_ruleSet.imp fun _ => .inr).add (opens_storyboard.imp fun _ => .inl)
  · rw [documentStep_apply, if_pos h]

theorem document_recognizes (c : Cursor) :
    (document c).Recognizes c Grammar.document fun c => c.kind = .eof := by
  have h := documentStep_loop.star_recognizes documentStep_steps c
  rw [document_apply]
  exact ⟨h.sound, h.complete⟩

end Production

/-- The structure of a text is clean exactly if its lexemes are a style sheet of the grammar. -/
theorem draftOf_clean_iff (text : Text) :
    (draftOf (Lexemes.scan text)).Clean ↔
      Lexeme.signs none (Lexemes.scan text).body ∈ Grammar.document := by
  have hr := Production.document_recognizes (.ofLexemes (Lexemes.scan text))
  refine ⟨fun hc => ?_, fun hs => ?_⟩
  · obtain ⟨ss, hs, ls, hp, rfl⟩ := hr.sound hc
    have hbody : (Lexemes.scan text).body = ls := by
      have hahead : (Lexemes.scan text).body = ls ++ (draftOf (Lexemes.scan text)).rest.ahead :=
        hp.ahead
      rwa [ahead_draftOf, List.append_nil] at hahead
    rw [hbody]
    exact hs
  · have hpass := (Cursor.ofLexemes (Lexemes.scan text)).passes_take (Lexemes.scan text).body.length
    rw [show (Cursor.ofLexemes (Lexemes.scan text)).ahead = (Lexemes.scan text).body from rfl,
      List.take_length] at hpass
    refine (hr.complete hs ⟨_, hpass, rfl⟩ ?_).1
    simp [Cursor.ofLexemes, Cursor.advance, Cursor.kind, Cursor.kindAt, Lexeme.kindAt]

/-- No error is found in a text exactly if none is found in its lexemes and its structure is
clean. -/
theorem hasErrors_eq_false_iff (text : Text) :
    Diagnostic.hasErrors (parse text).diagnostics = false ↔
      (Lexemes.scan text).reports = [] ∧ (draftOf (Lexemes.scan text)).Clean := by
  have hmem {d : Diagnostic} : d ∈ (parse text).diagnostics ↔
      d ∈ (Lexemes.scan text).reports ∨ d ∈ (draftOf (Lexemes.scan text)).reports :=
    (Diagnostic.sorted_perm _).mem_iff.trans List.mem_append
  rw [Diagnostic.hasErrors, List.any_eq_false]
  refine ⟨fun h => ⟨?_, fun d hd => ?_⟩, fun ⟨hscan, hclean⟩ d hd => ?_⟩
  · refine List.eq_nil_iff_forall_not_mem.mpr fun d hd => h d (hmem.mpr (.inl hd)) ?_
    exact Lexemes.isError_of_mem_reports hd
  · exact Bool.eq_false_iff.mpr (h d (hmem.mpr (.inr hd)))
  · rcases hmem.mp hd with hd | hd
    · simp [hscan] at hd
    · simp [hclean d hd]

/-- No error is found in a text exactly if its lexemes can be told apart without one, and are a
style sheet of the grammar. -/
theorem parse_recognizes (text : Text) :
    Diagnostic.hasErrors (parse text).diagnostics = false ↔
      (Lexemes.scan text).reports = [] ∧
        Lexeme.signs none (Lexemes.scan text).body ∈ Grammar.document := by
  rw [hasErrors_eq_false_iff, draftOf_clean_iff]

end Stylesheet
