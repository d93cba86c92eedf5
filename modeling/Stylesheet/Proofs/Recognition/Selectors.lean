import Mathlib.Data.List.Chain
import Stylesheet.Proofs.Reading.Selectors
import Stylesheet.Proofs.Recognition.Loops

/-!
# Recognizing selectors

Results:
* `subPart_recognizes`, `selectorPart_recognizes`: a part is read up to where none goes on with it.
* `selector_recognizes`: the components of a selector, each part one of its own.
* `parenthesizedSelector_recognizes`, `navigation_recognizes`, `navigatedSelector_recognizes`.
-/
namespace Stylesheet.Production

open Grammar
open scoped Computability

variable {c c' : Cursor} {F : Cursor → Prop} {ss : List Sign}

/-! ## Parts -/

theorem touching_sign (P : Sign → Prop) :
    Grammar.touching (sign P) = sign fun s => P s ∧ s.touching := by
  ext ss
  constructor
  · rintro ⟨⟨s, hs, rfl⟩, t, rest, ht, htouch⟩
    obtain ⟨rfl, -⟩ := List.cons.inj ht
    exact ⟨s, ⟨hs, htouch⟩, rfl⟩
  · rintro ⟨s, ⟨hs, htouch⟩, rfl⟩
    exact ⟨⟨s, hs, rfl⟩, s, [], rfl, htouch⟩

theorem touchingName_recognizes (c : Cursor) :
    (touchingName c).Recognizes c (Grammar.touching name) F := by
  rw [name, touching_sign]
  by_cases h : c.kind.isName ∧ c.touching
  · have hx : touchingName c = takeAs .identifier c := by
      simp [Parsing.touchingName, holds, look, contains_nameStarts, h]
    obtain ⟨l, rest, hc, -⟩ := Cursor.exists_ahead (ne_eof_of_isName h.1)
    rw [hx, takeAs_apply _ hc]
    exact one_recognizes hc h
  · have hx : touchingName c = absent .identifier c := by
      simp [Parsing.touchingName, holds, look, contains_nameStarts, mt And.symm h]
    rw [hx]
    exact absent_recognizes opens_sign h

theorem touchingMark_recognizes (c : Cursor) :
    (touchingMark c).Recognizes c (maybe (Grammar.touching (one .exclamationMark)))
      fun c => c.kind ≠ .exclamationMark := by
  have hx : touchingMark c
      = optional (c.touching && decide (c.kind = .exclamationMark)) take c := rfl
  rw [hx, one, touching_sign]
  refine optional_recognizes ?_ opens_sign (fun h => ?_) fun c h hp => h hp.1
  · rw [Bool.and_eq_true, decide_eq_true_iff]
    exact And.comm
  · obtain ⟨htouch, hk⟩ := Bool.and_eq_true_iff.mp h
    have hk : c.kind = .exclamationMark := of_decide_eq_true hk
    exact take_recognizes (by simp [hk]) ⟨hk, htouch⟩

/-- The four ways to write a part of a part, each of which starts in its own way. -/
theorem subPart_eq :
    Grammar.subPart = name * maybe (Grammar.touching (one .exclamationMark))
      + one .asterisk * maybe (Grammar.touching (one .exclamationMark))
      + oneOf [.period, .hash]
        * (Grammar.touching name * maybe (Grammar.touching (one .exclamationMark)))
      + one .colon * Grammar.touching name := by
  rw [Grammar.subPart, add_mul, add_mul, mul_assoc]

/-- How a word of a sum of four languages can start, if they start in different ways. -/
theorem subPart_cases (hs : ss ∈ Grammar.subPart) (hc : c.Spells ss c') :
    (ss ∈ name * maybe (Grammar.touching (one .exclamationMark)) ∧ c.kind.isName) ∨
    (ss ∈ one .asterisk * maybe (Grammar.touching (one .exclamationMark)) ∧ c.kind = .asterisk) ∨
    (ss ∈ oneOf [.period, .hash]
        * (Grammar.touching name * maybe (Grammar.touching (one .exclamationMark))) ∧
      c.kind ∈ [Kind.period, .hash]) ∨
    (ss ∈ one .colon * Grammar.touching name ∧ c.kind = .colon) := by
  rw [subPart_eq] at hs
  rcases hs with ((hs | hs) | hs) | hs
  · exact .inl ⟨hs, (opens_sign.mul _).sign hs hc⟩
  · exact .inr (.inl ⟨hs, ((opens_one _).mul _).sign hs hc⟩)
  · exact .inr (.inr (.inl ⟨hs, (opens_sign.mul _).sign hs hc⟩))
  · exact .inr (.inr (.inr ⟨hs, ((opens_one _).mul _).sign hs hc⟩))

theorem subPart_recognizes (c : Cursor) :
    (subPart c).Recognizes c Grammar.subPart fun c => c.kind ≠ .exclamationMark := by
  by_cases hcolon : c.kind = .colon
  · rw [subPart_colon hcolon]
    refine (Outcome.Recognizes.andThen (takeKind_recognizes hcolon (by decide))
      (.last (touchingName_recognizes _))).widen (fun _ h => .inr h) fun hs hc _ => ?_
    have hcases := subPart_cases hs hc
    rw [hcolon] at hcases
    simpa [show Kind.colon.isName = false from rfl] using hcases
  by_cases hmarked : c.kind = .period ∨ c.kind = .hash
  · have hk : c.kind ∈ [Kind.period, .hash] := by simpa using hmarked
    have hmark (F : Cursor → Prop) : (take c).Recognizes c (oneOf [.period, .hash]) F :=
      take_recognizes (by rcases hmarked with h | h <;> simp [h]) hk
    rw [subPart_mark hmarked, subPart_eq]
    refine ((hmark _).andThen (.andThen (touchingName_recognizes _)
      (.last (touchingMark_recognizes _)))).widen (fun _ h => .inl (.inr h)) fun hs hc _ => ?_
    rw [← subPart_eq] at hs
    rcases subPart_cases hs hc with ⟨-, h⟩ | ⟨-, h⟩ | ⟨h, -⟩ | ⟨-, h⟩
    · rcases hmarked with hk | hk <;> rw [hk] at h <;> cases h
    · rcases hmarked with hk | hk <;> rw [hk] at h <;> cases h
    · exact h
    · exact absurd h hcolon
  by_cases hstar : c.kind = .asterisk
  · rw [subPart_asterisk hstar, subPart_eq]
    refine (Outcome.Recognizes.andThen (takeKind_recognizes hstar (by decide))
      (.last (touchingMark_recognizes _))).widen (fun _ h => .inl (.inl (.inr h))) fun hs hc _ => ?_
    rw [← subPart_eq] at hs
    have hcases := subPart_cases hs hc
    rw [hstar] at hcases
    simpa [show Kind.asterisk.isName = false from rfl] using hcases
  · obtain ⟨hperiod, hhash⟩ := not_or.mp hmarked
    rw [subPart_name hperiod hhash hstar hcolon, subPart_eq]
    refine (Outcome.Recognizes.andThen (expectName_recognizes c)
      (.last (touchingMark_recognizes _))).widen (fun _ h => .inl (.inl (.inl h))) fun hs hc _ => ?_
    rw [← subPart_eq] at hs
    simpa [hperiod, hhash, hstar, hcolon] using (subPart_cases hs hc).imp_left And.left

theorem opens_subPart : Opens Grammar.subPart StartsPart := by
  rw [subPart_eq]
  refine Opens.add (.add (.add ?_ ?_) ?_) ?_
  · exact (opens_sign.mul _).imp fun s h => .inl h
  · exact ((opens_one _).mul _).imp fun s h => .inr (by simp [h])
  · exact (opens_sign.mul _).imp fun s h => .inr (List.mem_cons_of_mem _ (by simp_all; tauto))
  · exact ((opens_one _).mul _).imp fun s h => .inr (by simp [h])

theorem not_mark_of_goesOn (h : GoesOn c.sign) : c.kind ≠ .exclamationMark := by
  intro he
  have hk : c.kind ∈ [Kind.period, .hash, .colon] := h.2
  rw [he] at hk
  revert hk
  decide

theorem goesOn_iff : GoesOn c.sign ↔ (c.touching && partMarks.contains c.kind) = true := by
  rw [contains_partMarks, Bool.and_eq_true, decide_eq_true_iff]
  rfl

theorem partStep_goesOn (h : GoesOn c.sign) : partStep c = (some <$> subPart) c := by
  simp [partStep, holds, look, goesOn_iff.mp h, optional_true]

theorem partStep_none (h : ¬GoesOn c.sign) : (partStep c).value = none := by
  rw [goesOn_iff, Bool.not_eq_true] at h
  simp [partStep, holds, look, h, optional_false]

/-- Where a part may end: nothing goes on with it. -/
def EndsPart (c : Cursor) : Prop := c.kind ≠ .exclamationMark ∧ ¬GoesOn c.sign

theorem partStep_loop : Loop partStep (starting GoesOn Grammar.subPart) 0
    (fun c => c.kind ≠ .exclamationMark) EndsPart :=
  .of_items (fun _ h => partStep_goesOn h) (fun _ h => .inl (partStep_none h))
    (fun c h => (subPart_recognizes c).starting opens_subPart h) opens_starting
    (fun _ h => not_mark_of_goesOn h) fun _ h => ⟨partStep_none h.2, h.1⟩

theorem selectorPart_recognizes (c : Cursor) :
    (selectorPart c).Recognizes c Grammar.part EndsPart := by
  have hmore := partStep_loop.star_recognizes partStep_steps (subPart c).rest
  show ((subPart >>= fun first => many partStep >>= fun more =>
    pure (Draft.composite .selectorPart [Draft.list (first :: more)]) : Production Draft)
      c).Recognizes c _ _
  exact .bind (subPart_recognizes c) (.last hmore)
    (leads_star opens_starting (fun _ h => not_mark_of_goesOn h) fun _ h => h.1)

/-- Behind a part, nothing goes on with it. -/
theorem selectorPart_stops (c : Cursor) : ¬GoesOn (selectorPart c).rest.sign := by
  have hstop := many_stops partStep_steps (subPart c).rest
  intro h
  rw [selectorPart_apply] at h
  rw [partStep_goesOn h, map_apply] at hstop
  cases congrArg Outcome.value hstop

/-! ## Selectors -/

theorem opens_part : Opens Grammar.part StartsPart := opens_subPart.mul _

theorem startsPart_iff : StartsPart c.sign ↔ partStarts.contains c.kind = true := by
  rw [contains_partStarts, Bool.or_eq_true, decide_eq_true_iff]
  simp only [StartsPart, Cursor.sign]
  constructor
  · rintro (h | h)
    · exact .inr h
    · exact .inl (by simpa [or_comm, or_left_comm] using h)
  · rintro (h | h)
    · exact .inr (by simpa [or_comm, or_left_comm] using h)
    · exact .inl h

theorem contains_combinators_iff (k : Kind) : combinators.contains k = k.isCombinator := by
  rw [contains_combinators]
  cases k <;> rfl

theorem not_combinator_of_startsPart {s : Sign} (h : StartsPart s) :
    s.kind.isCombinator = false := by
  obtain ⟨kind, touching⟩ := s
  revert h
  cases kind <;> simp [StartsPart, Kind.isCombinator] <;> decide

theorem componentStep_combinator (h : c.kind.isCombinator) :
    componentStep c = (some <$> take) c := by
  rw [componentStep_apply, contains_combinators_iff, if_pos h]

theorem componentStep_part (h : StartsPart c.sign) :
    componentStep c = (some <$> selectorPart) c :=
  componentStep_of_partStarts (startsPart_iff.mp h)

theorem componentStep_none (hc : c.kind.isCombinator = false) (hp : ¬StartsPart c.sign) :
    (componentStep c).value = none := by
  rw [componentStep_apply, contains_combinators_iff, hc, if_neg (by simp),
    if_neg (mt startsPart_iff.mpr hp)]

theorem combinator_recognizes (h : c.kind.isCombinator) :
    (take c).Recognizes c combinator F := by
  refine take_recognizes (fun he => ?_) h
  rw [he] at h
  cases h

/-- What a selector may stand in front of. -/
def EndsSelector (c : Cursor) : Prop := c.kind ∈ [Kind.comma, .pipe, .leftBrace, .rightParen]

theorem EndsSelector.none (h : EndsSelector c) :
    c.kind.isCombinator = false ∧ ¬StartsPart c.sign ∧ c.kind ≠ .exclamationMark := by
  rw [startsPart_iff, contains_partStarts]
  rw [EndsSelector] at h
  generalize c.kind = k at h
  revert h
  cases k <;> decide

theorem goesOn_startsPart {s : Sign} (h : GoesOn s) : StartsPart s := .inr (List.mem_cons_of_mem _ h.2)

theorem EndsSelector.endsPart (h : EndsSelector c) : EndsPart c :=
  ⟨h.none.2.2, fun hg => h.none.2.1 (goesOn_startsPart hg)⟩

theorem endsPart_of_combinator (h : c.kind.isCombinator) : EndsPart c := by
  refine ⟨fun he => ?_, fun hg => ?_⟩
  · rw [he] at h
    cases h
  · have hn : c.kind.isCombinator = false := not_combinator_of_startsPart (goesOn_startsPart hg)
    rw [hn] at h
    cases h

/-- A part may be followed by one that is not a part of it. -/
theorem endsPart_of_startsPart (h : StartsPart c.sign) (hg : ¬GoesOn c.sign) : EndsPart c := by
  refine ⟨fun he => ?_, hg⟩
  rw [startsPart_iff, contains_partStarts, he] at h
  revert h
  decide

/-- What one step of the loop of a selector reads. -/
theorem component_sound (hn : (componentStep c).value ≠ none) (hc : (componentStep c).Clean) :
    (∃ a ∈ combinator, c.Spells a (componentStep c).rest) ∨
      ∃ a ∈ Grammar.part, c.Spells a (componentStep c).rest ∧
        ¬GoesOn (componentStep c).rest.sign := by
  by_cases hcomb : c.kind.isCombinator
  · have hx := componentStep_combinator hcomb
    rw [map_apply] at hx
    rw [hx] at hc ⊢
    exact .inl ((@combinator_recognizes c (fun _ => True) hcomb).sound hc)
  by_cases hpart : StartsPart c.sign
  · have hx := componentStep_part hpart
    rw [map_apply] at hx
    rw [hx] at hc ⊢
    obtain ⟨a, ha, hsp⟩ := (selectorPart_recognizes c).sound hc
    exact .inr ⟨a, ha, hsp, selectorPart_stops c⟩
  · exact absurd (componentStep_none (by simpa using hcomb) hpart) hn

/-- Components that may follow one another. -/
def Apart (a b : List Sign) : Prop := a ∈ Grammar.part → b ∉ starting GoesOn Grammar.part

theorem apart_of_combinator {a : List Sign} (h : a ∈ combinator) (b : List Sign) : Apart a b := by
  intro hp
  obtain ⟨s, hs, rfl⟩ := h
  obtain ⟨t, rest, ht, hstart⟩ := opens_part _ hp
  obtain ⟨rfl, -⟩ := List.cons.inj ht
  rw [not_combinator_of_startsPart hstart] at hs
  cases hs

/-- The components of a selector, each of them where it is read. -/
theorem components_sound (c : Cursor) (h : (many componentStep c).Clean) :
    ∃ components : List (List Sign), components.length = (many componentStep c).value.length ∧
      (∀ x ∈ components, x ∈ Grammar.part + combinator) ∧ components.IsChain Apart ∧
      c.Spells components.flatten (many componentStep c).rest := by
  fun_induction many componentStep c with
  | case1 c first hn =>
    refine ⟨[], rfl, by simp, .nil, ?_⟩
    rw [show first.rest = c from congrArg Outcome.rest (componentStep_steps.ends hn)]
    exact .refl c
  | case2 c first d hd hlt tail ih =>
    obtain ⟨hfirst, htail⟩ : first.Clean ∧ tail.Clean := Outcome.clean_append.mp h
    obtain ⟨components, hlen, hmem, hchain, hsp⟩ := ih htail
    have hstep := component_sound (c := c) (by simp [first, hd] : first.value ≠ none) hfirst
    rcases hstep with ⟨a, ha, hspa⟩ | ⟨a, ha, hspa, hstop⟩
    · refine ⟨a :: components, by simp [hlen, tail], ?_, ?_, hspa.trans hsp⟩
      · exact List.forall_mem_cons.mpr ⟨.inr ha, hmem⟩
      · exact List.isChain_cons.mpr ⟨fun b _ => apart_of_combinator ha b, hchain⟩
    · refine ⟨a :: components, by simp [hlen, tail], ?_, ?_, hspa.trans hsp⟩
      · exact List.forall_mem_cons.mpr ⟨.inl ha, hmem⟩
      · refine List.isChain_cons.mpr ⟨fun b hb _ hgoes => hstop ?_, hchain⟩
        obtain ⟨rest, rfl⟩ : ∃ rest, components = b :: rest := by
          cases components <;> simp_all
        obtain ⟨c₁, h₁, -⟩ := Cursor.Spells.split hsp
        exact opens_starting.sign hgoes h₁
  | case3 c first d hd hlt => exact absurd (componentStep_steps.goesOn hd).2.2 hlt

theorem components_complete {components : List (List Sign)}
    (hmem : ∀ x ∈ components, x ∈ Grammar.part + combinator) (hchain : components.IsChain Apart)
    (hc : c.Spells components.flatten c') (hF : EndsSelector c') :
    (many componentStep c).Clean ∧ (many componentStep c).rest = c' ∧
      (many componentStep c).value.length = components.length := by
  induction components generalizing c with
  | nil =>
    have hn := componentStep_none hF.none.1 hF.none.2.1
    rw [hc.nil] at hn
    rw [componentStep_steps.many_of_none hn, hc.nil]
    exact ⟨by simp [Outcome.Clean], rfl, rfl⟩
  | cons a rest ih =>
    obtain ⟨ha, hrest⟩ := List.forall_mem_cons.mp hmem
    obtain ⟨happart, hchain⟩ := List.isChain_cons.mp hchain
    obtain ⟨c₁, h₁, h₂⟩ := hc.split
    have hgoes : Goes componentStep c c₁ := by
      rcases ha with ha | ha
      · have hstart := opens_part.sign ha h₁
        have hends : EndsPart c₁ := by
          cases rest with
          | nil => exact h₂.nil ▸ hF.endsPart
          | cons b rest =>
            obtain ⟨c₂, hb, -⟩ := h₂.split
            rcases hrest b (List.mem_cons_self ..) with hpart | hcomb
            · refine endsPart_of_startsPart (opens_part.sign hpart hb) fun hgoes => ?_
              obtain ⟨s, tail, rfl, -⟩ := opens_part _ hpart
              exact happart _ rfl ha ⟨hpart, s, tail, rfl, hb.sign_eq ▸ hgoes⟩
            · exact endsPart_of_combinator (opens_sign.sign hcomb hb)
        exact .of_item (componentStep_part hstart) ((selectorPart_recognizes c).complete ha h₁ hends)
      · have hk : c.kind.isCombinator := opens_sign.sign ha h₁
        exact .of_item (componentStep_combinator hk)
          ((@combinator_recognizes c (fun _ => True) hk).complete ha h₁ trivial)
    obtain ⟨hclean, hend, hlen⟩ := ih hrest hchain h₂
    obtain ⟨d, hd⟩ := Option.ne_none_iff_exists'.mp hgoes.answers
    rw [many_of_some hd (componentStep_steps.goesOn hd).2.2, hgoes.rest]
    exact ⟨Outcome.clean_append.mpr ⟨hgoes.clean, hclean⟩, hend, by simp [hlen]⟩

theorem selector_recognizes (c : Cursor) :
    (selector c).Recognizes c Grammar.selector EndsSelector := by
  rw [selector_apply]
  refine ⟨fun hc => ?_, ?_⟩
  · obtain ⟨hmany, hempty⟩ : (many componentStep c).Clean ∧
        (many componentStep c).value.isEmpty = false := by
      cases h : (many componentStep c).value.isEmpty with
      | true =>
        exact absurd hc (Outcome.not_clean
          (d := Problem.expectedSelector.reportAt (many componentStep c).rest.gap) (by simp [h]) rfl)
      | false => exact ⟨by simpa [Outcome.Clean, h] using hc, rfl⟩
    obtain ⟨components, hlen, hmem, hchain, hsp⟩ := components_sound c hmany
    refine ⟨components.flatten, ⟨components, ?_, hmem, hchain, rfl⟩, hsp⟩
    rintro rfl
    rw [List.eq_nil_of_length_eq_zero hlen.symm] at hempty
    cases hempty
  · rintro ss c' ⟨components, hne, hmem, hchain, rfl⟩ hc hF
    obtain ⟨hclean, hend, hlen⟩ := components_complete hmem hchain hc hF
    have hempty : (many componentStep c).value.isEmpty = false := by
      rw [List.isEmpty_eq_false_iff, ← List.length_pos_iff, hlen]
      exact List.length_pos_iff.mpr hne
    exact ⟨by simpa [Outcome.Clean, hempty] using hclean, hend⟩

theorem parenthesizedSelector_recognizes (c : Cursor) :
    (parenthesizedSelector c).Recognizes c Grammar.parenthesizedSelector F := by
  rw [Grammar.parenthesizedSelector, parentheses, mul_assoc]
  refine .andThen (expect_recognizes (by decide) c) (.bind (selector_recognizes _)
    (.last (expect_recognizes (by decide) _)) (.of_opens (opens_one _) fun c h => ?_))
  have hk : c.kind = .rightParen := h
  simp [EndsSelector, hk]

/-! ## Navigation -/

theorem indexer_recognizes (c : Cursor) : (indexer c).Recognizes c Grammar.indexer F := by
  rw [Grammar.indexer, mul_assoc]
  exact .andThen (expect_recognizes (by decide) c) (.andThen (expect_recognizes (by decide) _)
    (.last (expect_recognizes (by decide) _)))

theorem opens_indexer : Opens Grammar.indexer (·.kind = .leftBracket) := by
  rw [Grammar.indexer, mul_assoc]
  exact (opens_one _).mul _

theorem navigation_recognizes (c : Cursor) :
    (navigation c).Recognizes c Grammar.navigation F := by
  simp only [Grammar.navigation, mul_assoc]
  refine .andThen (expect_recognizes (by decide) c) (.bind (qualifiedName_recognizes _ _) (.seen ?_) ?_)
  · refine .bind (optionalKind_recognizes opens_indexer fun _ => indexer_recognizes _)
      (.andThen (expect_recognizes (by decide) _) (.last (expectName_recognizes _))) ?_
    refine .of_opens ((opens_one _).mul _) fun c h => ?_
    have hk : c.kind = .asKeyword := h
    simp [hk]
  · have hopens : Opens (maybe Grammar.indexer * (one .asKeyword * name)) (·.kind ≠ .period) :=
      .maybe_mul (opens_indexer.ne (by decide)) (((opens_one _).mul _).ne (by decide))
    exact .of_opens hopens fun c h howned => h howned.1

theorem opens_navigation : Opens Grammar.navigation (·.kind = .pipe) := by
  simp only [Grammar.navigation, mul_assoc]
  exact (opens_one _).mul _

theorem opens_selector : Opens Grammar.selector fun s => StartsPart s ∨ s.kind.isCombinator := by
  rintro ss ⟨components, hne, hmem, -, rfl⟩
  obtain ⟨a, rest, rfl⟩ := List.exists_cons_of_ne_nil hne
  have hopens : Opens (Grammar.part + combinator) fun s => StartsPart s ∨ s.kind.isCombinator :=
    (opens_part.imp fun _ h => .inl h).add (opens_sign.imp fun _ h => .inr h)
  obtain ⟨s, tail, rfl, hs⟩ := hopens a (hmem a (List.mem_cons_self ..))
  exact ⟨s, tail ++ rest.flatten, rfl, hs⟩

theorem navigatedSelector_recognizes (h : partStarts.contains c.kind) :
    (navigatedSelector c).Recognizes c Grammar.navigatedSelector
      fun c => c.kind ∈ [Kind.comma, .leftBrace] := by
  have hfirst := (selector_recognizes c).starting opens_selector (startsPart_iff.mpr h)
  refine .bind hfirst (.seen (.last ?_)) ?_
  · refine (optionalKind_recognizes opens_navigation fun _ => navigation_recognizes _).before ?_
    rintro c hk he
    rw [he] at hk
    revert hk
    decide
  · refine .add (.one fun c hk => ?_) (.of_opens opens_navigation fun c hk => ?_)
    · simp only [List.mem_cons, List.not_mem_nil, or_false] at hk
      rcases hk with hk | hk <;> simp [EndsSelector, hk]
    · have hk : c.kind = .pipe := hk
      simp [EndsSelector, hk]

end Stylesheet.Production
