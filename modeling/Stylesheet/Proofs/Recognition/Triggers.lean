import Stylesheet.Proofs.Reading.Triggers
import Stylesheet.Proofs.Recognition.Declarations
import Stylesheet.Proofs.Recognition.Selectors

/-!
# Recognizing triggers

The semicolon of an action may be left out, but a plain value goes on up to a semicolon, the end of
the block or the end of the text. So an action with a plain value and no semicolon can only be the
last one in its block.

Results:
* `action_finishes`: actions, with and without a semicolon.
* `evaluations_recognizes`: the evaluations of a property trigger.
* `trigger_recognizes`: a trigger of either sort.
-/
namespace Stylesheet.Production

open Grammar
open scoped Computability

variable {α : Type} {c c' : Cursor} {F : Cursor → Prop} {ss : List Sign} {I T V : Language Sign}

/-! ## Values of actions -/

theorem endsPlain_action (h : c.kind ∈ stops .action) : EndsPlain .action c :=
  ⟨.inl h, fun hn => absurd rfl hn, nofun⟩

theorem stops_of_atEnd (h : c.AtEnd) : c.kind ∈ stops .action := by
  rcases h with h | h <;> simp [h, Grammar.stops]

/-- The plain value of an action goes up to what ends it. -/
theorem value_action_stops (h : c.kind ≠ .leftBrace) (hc : (value .action c).Clean) :
    (value .action c).rest.kind ∈ stops .action := by
  rw [(plainValue_rest (mt And.left h) hc).2]
  exact Run.kindAt_drop_valueLength true c.ahead

/-- A value in an action, and the semicolon behind it. -/
theorem ended_finishes {f : Draft → Option Draft → Draft} (c : Cursor)
    (hF : ∀ c, F c → c.kind ≠ .semicolon) :
    ((value .action >>= fun content => accept .semicolon >>= fun semicolon =>
      pure (f content semicolon) : Production Draft) c).Finishes c ended (plainValue .action) F := by
  by_cases h : c.kind = .leftBrace
  · have hvalue : (value .action c).Recognizes c Grammar.bracedValue fun _ => True := by
      rw [value_braced h (by decide)]
      exact bracedValue_recognizes c
    have hrest : ((value .action >>= fun content => accept .semicolon >>= fun semicolon =>
        pure (f content semicolon) : Production Draft) c).Recognizes c
          (Grammar.bracedValue * maybe (one .semicolon)) F :=
      hvalue.andThen (.last ((accept_recognizes (by decide) _).before hF))
    refine hrest.finishes.congr (fun hc => ?_) fun {ss c'} hc _ => ?_
    · exact ((opens_plainValue.mul _).mem_add (fun hs => hs.1 h) hc).symm
    · refine ⟨fun hs => absurd hs (Language.notMem_zero ss), fun hs => ?_⟩
      exact absurd h (opens_plainValue.sign hs hc).1
  · have hvalue := @plainValue_recognizes c .action (mt And.left h)
    have htail {c : Cursor} (hk : c.kind = .semicolon) (content : Draft) :
        ((accept .semicolon >>= fun semicolon => pure (f content semicolon) :
          Production Draft) c).Recognizes c (one .semicolon) fun _ => True := by
      refine .last ?_
      rw [accept_of_kind hk]
      exact (takeKind_recognizes hk (by decide)).map
    have hnone {c : Cursor} (hk : c.kind ≠ .semicolon) (content : Draft) :
        (accept .semicolon >>= fun semicolon => pure (f content semicolon) : Production Draft) c
          = ⟨f content none, c, [], []⟩ := by
      simp [accept_of_ne hk]
    refine ⟨fun hc => ?_, fun {ss c'} hs hc hF => ?_, fun {ss c'} hs hc hend => ?_⟩
    · obtain ⟨hfirst, hsecond⟩ := clean_bind.mp hc
      obtain ⟨a, ha, hsa⟩ := hvalue.sound hfirst
      by_cases hk : (value .action c).rest.kind = .semicolon
      · obtain ⟨b, hb, hsb⟩ := (htail hk _).sound hsecond
        exact .inl ⟨a ++ b, .inl (Language.mem_mul.mpr ⟨a, ha, b, hb, rfl⟩), hsa.trans hsb⟩
      · have hstops := value_action_stops h hfirst
        simp only [stops, List.mem_cons, List.not_mem_nil, or_false, hk, false_or] at hstops
        rw [bind_apply, hnone hk]
        exact .inr ⟨a, ha, hsa, hstops.symm⟩
    · have hword : ss ∈ plainValue .action * one .semicolon :=
        ((opens_bracedValue.mul _).mem_add_left h hc).mp hs
      obtain ⟨a, ha, b, hb, rfl⟩ := Language.mem_mul.mp hword
      obtain ⟨c₁, h₁, h₂⟩ := hc.split
      have hk : c₁.kind = .semicolon := (opens_one _).sign hb h₂
      obtain ⟨hfirst, rfl⟩ := hvalue.complete ha h₁ (endsPlain_action (by simp [hk, stops]))
      obtain ⟨hsecond, hrest⟩ := (htail hk _).complete hb h₂ trivial
      exact ⟨clean_bind.mpr ⟨hfirst, hsecond⟩, hrest⟩
    · obtain ⟨hfirst, rfl⟩ := hvalue.complete hs hc (endsPlain_action (stops_of_atEnd hend))
      have hk : (value .action c).rest.kind ≠ .semicolon := by
        rcases hend with hend | hend <;> simp [hend]
      refine ⟨clean_bind.mpr ⟨hfirst, ?_⟩, by rw [bind_apply, hnone hk]⟩
      rw [hnone hk]
      simp [Outcome.Clean]

/-! ## Actions -/

/-- What has a selector in front or not. -/
theorem targeted_finishes {P Q : Sign → Prop} {k : Option Draft → Production α} (c : Cursor)
    (hk : ∀ target c, (k target c).Finishes c I T F) (hi : Opens I P) (ht : Opens T Q) :
    ((actionSelector >>= k) c).Finishes c (targeted I) (targeted T) F := by
  have hx : actionSelector c = optional (decide (c.kind = .leftParen)) parenthesizedSelector c := rfl
  by_cases h : c.kind = .leftParen
  · have hselector : (actionSelector c).Recognizes c Grammar.parenthesizedSelector fun _ => True := by
      rw [hx, decide_eq_true h, optional_true, ← map_apply]
      exact (parenthesizedSelector_recognizes c).map
    have hnot : ¬c.sign.kind ≠ .leftParen := not_not_intro h
    exact (Outcome.Finishes.bind hselector (hk _ _) .anywhere .anywhere).congr
      (fun hc => (opens_starting.mem_add_left hnot hc).symm)
      fun hc _ => (opens_starting.mem_add_left hnot hc).symm
  · have hnone : (actionSelector c).Recognizes c 1 fun _ => True := by
      rw [hx, decide_eq_false h, optional_false]
      exact .nothing none c
    have hvalue := Outcome.Finishes.bind hnone (hk _ _) .anywhere .anywhere
    rw [one_mul, one_mul] at hvalue
    have hopens : Opens Grammar.parenthesizedSelector (·.kind = .leftParen) := opens_parentheses _
    exact hvalue.congr
      (fun hc => (((hopens.mul _).mem_add h hc).trans (hi.mem_starting h hc)).symm)
      fun hc _ => (((hopens.mul _).mem_add h hc).trans (ht.mem_starting h hc)).symm

/-- Where a name is the owner of another one, only a word with both can stand. -/
theorem mem_property_owned (h : Owned (expectName c).rest) (hc : c.Spells ss c')
    (hv : ∀ w ∈ V, w ≠ [] ∧ (w.length = 1 → ¬c'.kind.isName)) :
    ss ∈ name * (one .period * name) * V ↔ ss ∈ property V := by
  rw [property, ← mul_assoc name (one .period) name]
  refine ⟨.inl, fun hs => hs.elim id fun hs => ?_⟩
  obtain ⟨a, ha, w, hw, rfl⟩ := Language.mem_mul.mp hs
  obtain ⟨c₁, h₁, h₂⟩ := hc.split
  obtain ⟨hperiod, hname⟩ : Owned c₁ := expectName_rest ha h₁ ▸ h
  match w with
  | [] => exact absurd rfl (hv _ hw.1).1
  | [p] => exact absurd (h₂.kind_behind ▸ hname) ((hv _ hw.1).2 rfl)
  | p :: n :: rest =>
    exact absurd (h₂.kindAt_one ▸ hname) (hw.2 p n rest rfl (h₂.kind_eq ▸ hperiod))

/-- Where a name is no owner of another one, only a word without one can stand. -/
theorem mem_property_alone (h : ¬Owned (expectName c).rest) (hc : c.Spells ss c') :
    ss ∈ name * V ↔ ss ∈ property V := by
  refine ⟨fun hs => .inr ?_, fun hs => hs.elim (fun hs => ?_) fun hs => ?_⟩
  · obtain ⟨a, ha, w, hw, rfl⟩ := Language.mem_mul.mp hs
    refine Language.mem_mul.mpr ⟨a, ha, w, ⟨hw, ?_⟩, rfl⟩
    rintro p n rest rfl hp hn
    obtain ⟨c₁, h₁, h₂⟩ := hc.split
    refine h (expectName_rest ha h₁ ▸ ⟨h₂.kind_eq.trans hp, ?_⟩)
    rw [h₂.kindAt_one]
    exact hn
  · rw [mul_assoc, mul_assoc] at hs
    obtain ⟨a, ha, w, hw, rfl⟩ := Language.mem_mul.mp hs
    obtain ⟨c₁, h₁, h₂⟩ := hc.split
    rw [← mul_assoc] at hw
    obtain ⟨o, ho, v, -, rfl⟩ := Language.mem_mul.mp hw
    obtain ⟨c₂, h₂, -⟩ := h₂.split
    exact absurd (expectName_rest ha h₁ ▸ owned_of_spells ho h₂) h
  · obtain ⟨a, ha, w, hw, rfl⟩ := Language.mem_mul.mp hs
    exact Language.mem_mul.mpr ⟨a, ha, w, hw.1, rfl⟩

/-- A property in front of something. -/
theorem property_finishes {k : Draft → Production α} (kind : Kind) (c : Cursor)
    (hk : ∀ property c, (k property c).Finishes c I T F) (hi : ∀ w ∈ I, 2 ≤ w.length)
    (ht : ∀ w ∈ T, w ≠ []) :
    ((qualifiedName kind >>= k) c).Finishes c (property I) (property T) F := by
  by_cases h : Owned (expectName c).rest
  · refine (Outcome.Finishes.bind (qualifiedName_owned_recognizes kind h) (hk _ _) .anywhere
      .anywhere).congr (fun hc => mem_property_owned h hc fun w hw => ?_)
      fun hc hend => mem_property_owned h hc fun w hw => ?_
    · have hlen := hi w hw
      exact ⟨fun hnil => by simp [hnil] at hlen, fun hone => by omega⟩
    · refine ⟨ht w hw, fun _ => ?_⟩
      rcases hend with hend | hend <;> rw [hend] <;> decide
  · exact (Outcome.Finishes.bind (qualifiedName_alone_recognizes kind h) (hk _ _) .anywhere
      .anywhere).congr (fun hc => mem_property_alone h hc) fun hc _ => mem_property_alone h hc

theorem ended_length : ∀ w ∈ ended, 2 ≤ w.length := by
  rintro w (hw | hw)
  · obtain ⟨a, ha, b, ⟨s, -, rfl⟩, rfl⟩ := Language.mem_mul.mp hw
    have hlen := List.length_pos_iff.mpr (opens_plainValue.ne_nil ha)
    simp only [List.length_append, List.length_singleton]
    omega
  · obtain ⟨a, ha, b, -, rfl⟩ := Language.mem_mul.mp hw
    obtain ⟨x, hx, y, ⟨s, -, rfl⟩, rfl⟩ := Language.mem_mul.mp ha
    obtain ⟨o, ⟨t, -, rfl⟩, z, -, rfl⟩ := Language.mem_mul.mp hx
    simp only [List.length_append, List.length_singleton]
    omega

theorem targeted_length {n : Nat} (h : ∀ w ∈ V, n ≤ w.length) : ∀ w ∈ targeted V, n ≤ w.length := by
  rintro w (hw | hw)
  · obtain ⟨a, -, b, hb, rfl⟩ := Language.mem_mul.mp hw
    exact (h b hb).trans (by simp)
  · exact h w hw.1

theorem opens_ended : Opens ended fun _ => True := fun w hw => by
  cases w with
  | nil => exact absurd (ended_length _ hw) (by simp)
  | cons s rest => exact ⟨s, rest, rfl, trivial⟩

theorem plainValue_length : ∀ w ∈ plainValue .action, 1 ≤ w.length :=
  fun _ hw => List.length_pos_iff.mpr (opens_plainValue.ne_nil hw)

theorem action_finishes (h : actionStarts.contains c.kind) (hF : ∀ c, F c → c.kind ≠ .semicolon) :
    (action c).Finishes c (Grammar.action ended) (Grammar.action (plainValue .action)) F := by
  have hcases : c.kind = .playStoryboardKeyword ∨ c.kind = .playSfxKeyword ∨ c.kind = .setKeyword := by
    simpa [contains_actionStarts] using h
  have hopens {k : Kind} {L : Language Sign} : Opens (one k * L) (·.kind = k) := (opens_one k).mul L
  rcases hcases with hk | hk | hk
  · rw [action_playStoryboard hk]
    have hsfx : c.kind ≠ .playSfxKeyword := by simp [hk]
    have hset : c.kind ≠ .setKeyword := by simp [hk]
    have hmem {V : Language Sign} {ss : List Sign} {c' : Cursor} (hc : c.Spells ss c') :
        ss ∈ one .playStoryboardKeyword * targeted V ↔ ss ∈ Grammar.action V :=
      ((hopens.mem_add_left hset hc).trans (hopens.mem_add_left hsfx hc)).symm
    refine (Outcome.Finishes.bind (takeKind_recognizes hk (by decide)) (targeted_finishes _
      (fun _ c => ended_finishes c hF) opens_ended opens_plainValue) .anywhere .anywhere).congr
      hmem fun hc _ => hmem hc
  · rw [action_playSfx hk]
    have hplay : c.kind ≠ .playStoryboardKeyword := by simp [hk]
    have hset : c.kind ≠ .setKeyword := by simp [hk]
    have hmem {V : Language Sign} {ss : List Sign} {c' : Cursor} (hc : c.Spells ss c') :
        ss ∈ one .playSfxKeyword * V ↔ ss ∈ Grammar.action V :=
      ((hopens.mem_add_left hset hc).trans (hopens.mem_add hplay hc)).symm
    exact (Outcome.Finishes.bind (takeKind_recognizes hk (by decide)) (ended_finishes _ hF) .anywhere
      .anywhere).congr hmem fun hc _ => hmem hc
  · rw [action_set hk]
    have hplay : c.kind ≠ .playStoryboardKeyword := by simp [hk]
    have hsfx : c.kind ≠ .playSfxKeyword := by simp [hk]
    have hmem {V : Language Sign} {ss : List Sign} {c' : Cursor} (hc : c.Spells ss c') :
        ss ∈ one .setKeyword * property (targeted V) ↔ ss ∈ Grammar.action V := by
      rw [Grammar.action, add_assoc]
      exact ((hopens.mem_add hplay hc).trans (hopens.mem_add hsfx hc)).symm
    refine (Outcome.Finishes.bind (expect_recognizes (by decide) c) (property_finishes _ _ (fun _ c =>
      targeted_finishes c (fun _ c => ended_finishes c hF) opens_ended opens_plainValue)
      (targeted_length ended_length) fun w hw => ?_) .anywhere .anywhere).congr
      hmem fun hc _ => hmem hc
    exact List.length_pos_iff.mp (targeted_length plainValue_length w hw)

theorem opens_action (V : Language Sign) :
    Opens (Grammar.action V) fun s => actionStarts.contains s.kind := by
  have hopens {k : Kind} (L : Language Sign) (h : actionStarts.contains k) :
      Opens (one k * L) fun s => actionStarts.contains s.kind :=
    ((opens_one k).mul L).imp fun s hs => hs ▸ h
  exact ((hopens _ (by decide)).add (hopens _ (by decide))).add (hopens _ (by decide))

theorem actions_recognizes (c : Cursor) :
    (block actionStarts action c).Recognizes c (braces actions) F := by
  refine block_recognizes ⟨fun _ => action_item, fun c h => action_finishes h fun c hc hk => ?_,
    opens_action _, opens_action _, by decide⟩ c
  rcases hc with hc | hc
  · rw [hk] at hc
    exact absurd hc (by decide)
  · rw [hk] at hc
    cases hc

/-! ## Triggers on properties -/

theorem comparison_recognizes (c : Cursor) :
    (comparison c).Recognizes c (sign (·.kind.isComparison)) F := by
  by_cases h : c.kind.isComparison
  · have hx : comparison c = take c := by simp [Parsing.comparison, holds, look, h]
    rw [hx]
    refine take_recognizes (fun he => ?_) h
    rw [he] at h
    cases h
  · have hx : comparison c = lacking .equals .expectedComparison c := by
      simp [Parsing.comparison, holds, look, h]
    rw [hx]
    exact .refuse (lacking_not_clean _ rfl c) fun hs hc _ => h (opens_sign.sign hs hc)

theorem not_comparison_of_isName {k : Kind} (h : k.isName) : k.isComparison = false := by
  cases k <;> first | rfl | cases h

theorem opens_evaluation :
    Opens Grammar.evaluation fun s => s.kind.isName ∧ s.kind ≠ .importantKeyword :=
  ((opens_qualifiedName.mul _).mul _).starting

theorem evaluation_recognizes (h : evaluationStarts c) :
    (evaluation c).Recognizes c Grammar.evaluation (EndsPlain .evaluation) := by
  have hopens : Opens (Grammar.qualifiedName * (sign (·.kind.isComparison) *
      plainValue .evaluation)) fun s => s.kind.isName := opens_qualifiedName.mul _
  simp only [Grammar.evaluation, mul_assoc]
  refine .starting (.bind (qualifiedName_recognizes _ c) (.andThen (comparison_recognizes _)
    (.last (plainValue_recognizes (by simp)))) ?_) hopens ?_
  · refine .of_opens (opens_sign.mul _) fun c hk howned => ?_
    have hk : c.kind.isComparison := hk
    rw [howned.1] at hk
    cases hk
  · exact of_decide_eq_true (Bool.and_eq_true_iff.mp h).2

/-- What may follow the evaluations of a trigger. -/
def EndsEvaluations (c : Cursor) : Prop :=
  EndsPlain .evaluation c ∧ c.kind ∈ [Kind.importantKeyword, .exclamationMark, .leftBrace]

theorem evaluations_listing :
    Listing evaluationStarts evaluation Grammar.evaluation (EndsPlain .evaluation)
      EndsEvaluations := by
  refine ⟨fun c h => (evaluation_item (Bool.and_eq_true_iff.mp h).1).reads,
    fun c h => evaluation_recognizes h, fun ss c c' hs hc => ?_, fun ss c c' hs hc => ?_,
    fun c h => ⟨h.1, ?_⟩⟩
  · obtain ⟨hn, hi⟩ := opens_evaluation.sign hs hc
    exact Bool.and_eq_true_iff.mpr ⟨hn, decide_eq_true hi⟩
  · obtain ⟨a, ⟨m, hm, rfl⟩, b, hb, rfl⟩ := Language.mem_mul.mp hs
    obtain ⟨s, rest, rfl, hn, -⟩ := opens_evaluation b hb
    have hk : c.kind = .comma := hc.kind_eq.trans hm
    refine ⟨.inl (by simp [hk, stops]), fun _ hmarked => ?_, fun _ => ?_⟩
    · exact absurd (hk.symm.trans hmarked.1) (by decide)
    · rw [hc.kindAt_one]
      exact not_comparison_of_isName hn
  · have hk := h.2
    simp only [evaluationStarts]
    generalize c.kind = k at hk
    revert hk
    cases k <;> decide

theorem evaluations_eq (hs : evaluationStarts c) :
    evaluations c = separated .evaluation evaluationStarts evaluation c := by
  have hempty : (separated .evaluation evaluationStarts evaluation c).value.isEmpty = false := by
    rw [List.isEmpty_eq_false_iff]
    exact (separated_separated evaluations_listing.shorter c).ne_nil hs
  rw [evaluations_apply]
  simp [hempty]

theorem evaluations_not_clean (hs : evaluationStarts c = false) : ¬(evaluations c).Clean := by
  rw [evaluations_apply, separated_nothing hs]
  exact Outcome.not_clean (List.mem_singleton_self _) rfl

theorem evaluations_recognizes (c : Cursor) :
    (evaluations c).Recognizes c (Grammar.list Grammar.evaluation) EndsEvaluations := by
  cases hs : evaluationStarts c with
  | false =>
    refine .refuse (evaluations_not_clean hs) fun hss hc _ => ?_
    obtain ⟨hn, hi⟩ := (opens_evaluation.mul _).sign hss hc
    have hstart : evaluationStarts c = true := Bool.and_eq_true_iff.mpr ⟨hn, decide_eq_true hi⟩
    rw [hs] at hstart
    cases hstart
  | true =>
    rw [evaluations_eq hs]
    exact separated_recognizes evaluations_listing hs

/-- What is read as evaluations leaves no exclamation mark of a qualifier behind. -/
theorem evaluations_not_marked (hc : (evaluations c).Clean) : ¬(evaluations c).rest.Marked := by
  have hs : evaluationStarts c := by
    by_contra hs
    exact evaluations_not_clean (by simpa using hs) hc
  have hitem (c : Cursor) (_ : evaluationStarts c) (hc : (evaluation c).Clean) :
      ¬(evaluation c).rest.Marked := by
    unfold evaluation Parsing.evaluation at hc ⊢
    obtain ⟨-, hc⟩ := clean_bind.mp hc
    obtain ⟨-, hc⟩ := clean_bind.mp hc
    simp only [bind_apply, node_eq, pure_apply]
    exact value_not_marked (by decide) (clean_bind.mp hc).1
  rw [evaluations_eq hs] at hc ⊢
  exact (separated_separated evaluations_listing.shorter c).leaves (Q := fun c => ¬c.Marked) hitem
    hs hc

theorem not_comparison_of_actionStarts {k : Kind} (h : actionStarts.contains k) :
    k.isComparison = false := by
  rw [contains_actionStarts] at h
  revert h
  cases k <;> decide

/-- No comparison stands at the beginning of a body. -/
theorem leads_actions :
    Cursor.Leads (braces actions) F fun c => (c.kindAt 1).isComparison = false := by
  have hbody : Cursor.Leads (actions * one .rightBrace) F fun c => c.kind.isComparison = false := by
    have hlast : Opens (maybe (Grammar.action (plainValue .action)) * one .rightBrace)
        fun s => s.kind.isComparison = false :=
      .maybe_mul ((opens_action _).imp fun _ => not_comparison_of_actionStarts)
        ((opens_one _).imp fun _ hs => by rw [hs]; rfl)
    rw [actions, mul_assoc]
    exact leads_star_mul (opens_action _) (fun _ => not_comparison_of_actionStarts)
      (.of_opens hlast fun _ h => h)
  rintro ss c c' hs hc hF
  rw [braces, mul_assoc] at hs
  obtain ⟨a, ⟨s, -, rfl⟩, b, hb, rfl⟩ := Language.mem_mul.mp hs
  obtain ⟨c₁, h₁, h₂⟩ := hc.split
  rw [← h₁.kind_behind]
  exact hbody b c₁ c' hb h₂ hF

theorem propertyTrigger_recognizes (c : Cursor) :
    (propertyTrigger c).Recognizes c Grammar.propertyTrigger F := by
  rw [propertyTrigger_apply]
  simp only [Grammar.propertyTrigger, mul_assoc]
  refine .andThen (expect_recognizes (by decide) c) (.andThen (expect_recognizes (by decide) _) ?_)
  refine qualified_recognizes (evaluations_recognizes _) evaluations_not_marked
    (fun _ => (opens_evaluation.mul _).ne_nil) (.last (actions_recognizes _)) ?_ ?_
  · exact (opens_braces _).imp fun _ hs => by simp [hs]
  · have hopens : Opens (maybe Grammar.qualifier * braces actions) fun s =>
        s.kind ∈ [Kind.importantKeyword, .exclamationMark, .leftBrace] :=
      .maybe_mul (opens_qualifier.imp fun _ hs => by simp at hs ⊢; tauto)
        ((opens_braces _).imp fun _ hs => by simp [hs])
    refine fun ss c c' hs hc hF hn => ⟨?_, hopens.sign hs hc⟩
    refine leads_endsPlain (by decide) ?_ (fun ss c c' hs hc hF _ => ?_) ss c c' hs hc hF hn
    · exact (opens_braces _).imp fun _ hs => by simp [hs, stops]
    · exact leads_actions ss c c' hs hc hF

/-! ## Triggers on events -/

theorem eventArgument_recognizes (c : Cursor) :
    (eventArgument c).Recognizes c Grammar.eventArgument F := by
  by_cases h : c.kind = .handledKeyword ∨ c.kind = .setHandledKeyword
  · rw [eventArgument_known h]
    refine take_recognizes (by rcases h with h | h <;> simp [h]) ?_
    have hk : c.kind ∈ [Kind.handledKeyword, .setHandledKeyword] := by simpa using h
    exact hk
  · obtain ⟨h₁, h₂⟩ := not_or.mp h
    rw [eventArgument_unknown h₁ h₂]
    refine .refuse (Outcome.not_clean (List.mem_cons_self ..) rfl) fun hs hc _ => h ?_
    have hk : c.kind ∈ [Kind.handledKeyword, .setHandledKeyword] := opens_sign.sign hs hc
    simpa using hk

theorem eventArguments_listing :
    Listing (fun c => c.kind.isName) eventArgument Grammar.eventArgument (fun _ => True)
      fun c => c.kind = .rightParen := by
  refine ⟨fun c h => (eventArgument_item h).reads, fun c _ => eventArgument_recognizes c,
    fun ss c c' hs hc => ?_, fun _ _ _ _ _ => trivial, fun c h => ⟨trivial, by simp [h], by simp [h]; rfl⟩⟩
  have hk : c.kind ∈ [Kind.handledKeyword, .setHandledKeyword] := opens_sign.sign hs hc
  revert hk
  generalize c.kind = k
  cases k <;> decide

theorem eventArguments_recognizes (h : c.kind = .leftParen) :
    (eventArguments c).Recognizes c (parentheses (maybe (Grammar.list Grammar.eventArgument)))
      F := by
  rw [parentheses, mul_assoc]
  refine .andThen (takeKind_recognizes h (by decide)) (.bind (separated_maybe_recognizes
    eventArguments_listing _) (.given (.last (expect_recognizes (show Kind.rightParen ≠ .eof by decide) _)))
    ?_)
  exact .of_opens (opens_one _) fun _ h => h

theorem eventTrigger_recognizes (c : Cursor) :
    (eventTrigger c).Recognizes c Grammar.eventTrigger F := by
  have hbody : Opens (maybe Grammar.qualifier * braces actions) fun s =>
      s.kind ≠ .leftParen ∧ s.kind ≠ .period := by
    refine .maybe_mul (opens_qualifier.imp fun s hs => ?_)
      ((opens_braces _).imp fun _ hs => by simp [hs])
    simp only [List.mem_cons, List.not_mem_nil, or_false] at hs
    rcases hs with hs | hs <;> simp [hs]
  simp only [Grammar.eventTrigger, mul_assoc]
  refine .andThen (expect_recognizes (show Kind.triggerKeyword ≠ .eof by decide) c)
    (.andThen (expect_recognizes (show Kind.eventKeyword ≠ .eof by decide) _)
      (.bind (qualifiedName_recognizes _ _) (.seen ?_) ?_))
  · refine .bind (optionalKind_recognizes (opens_parentheses _) eventArguments_recognizes)
      (.bind (qualifier_recognizes _) (.last (actions_recognizes _)) ?_) ?_
    · refine .of_opens (opens_braces _) fun c hk hq => ?_
      have hk : c.kind = .leftBrace := hk
      simp [Qualified, hk] at hq
    · exact .of_opens hbody fun c h => h.1
  · have hopens : Opens (maybe (parentheses (maybe (Grammar.list Grammar.eventArgument))) *
        (maybe Grammar.qualifier * braces actions)) (·.kind ≠ .period) :=
      .maybe_mul ((opens_parentheses _).ne (by decide)) (hbody.imp fun _ h => h.2)
    exact .of_opens hopens fun c hk howned => hk howned.1

/-! ## Triggers -/

theorem opens_trigger : Opens Grammar.trigger (·.kind = .triggerKeyword) := by
  simp only [Grammar.trigger, Grammar.propertyTrigger, Grammar.eventTrigger, mul_assoc]
  exact ((opens_one _).mul _).add ((opens_one _).mul _)

theorem trigger_recognizes (c : Cursor) :
    (trigger c).Recognizes c Grammar.trigger F := by
  by_cases h : c.kindAt 1 = .eventKeyword
  · have hx : trigger c = eventTrigger c := by simp [Parsing.trigger, holds, look, h]
    rw [hx]
    refine (eventTrigger_recognizes c).widen (fun _ => .inr) fun hs hc _ => hs.elim (fun hs => ?_) id
    simp only [Grammar.propertyTrigger, mul_assoc] at hs
    exact absurd (h.symm.trans (kindAt_one_of_mem hs hc)) (by decide)
  · have hx : trigger c = propertyTrigger c := by simp [Parsing.trigger, holds, look, h]
    rw [hx]
    refine (propertyTrigger_recognizes c).widen (fun _ => .inl) fun hs hc _ => hs.elim id fun hs => ?_
    simp only [Grammar.eventTrigger, mul_assoc] at hs
    exact absurd (kindAt_one_of_mem hs hc) h

end Stylesheet.Production
