import Stylesheet.Proofs.Standing

/-!
# Evaluations whose comma is missing

The value of an evaluation ends at a later name if that name starts the next evaluation. A comma is
then missing in front of the name. What starts an evaluation is guessed from three lexemes: a name
with a comparison behind it, or with a period and, two places on, a comparison.

The guess does not look at what stands between the period and the comparison. Where that is a name
the evaluation is there. Where it is not, as in `b=c d.1=2`, the value ends all the same, and the
name is left without a comparison.

Results:
* `valueLength_ends`: a value ends at something that ends it.
* `evaluations_behind_gaps`: behind a missing comma stands an evaluation with its comparison, or what
  was taken for one.
* `evaluations_behind_gaps_misread`: the latter does happen.
-/
namespace Stylesheet

namespace Lexemes

variable (ls : Lexemes)

/-- The slots of an evaluation with a comparison right behind its name. -/
inductive IsCompared : Slots Kind Mark → Prop
  | intro {i j : Nat} {names : List (Option (Tree Kind Mark))} (value : Option (Tree Kind Mark))
      (hn : ls.IsName i names j) (hc : (Lexeme.kindAt ls.all j).isComparison) :
      IsCompared (.ofList [some (.node .propertyName (.ofList names)),
        some (.token (.run (Lexeme.kindAt ls.all j) j 0)), value])

/-- The slots of what looks like an evaluation from afar: behind its name stand a period, something
that is no name, and a comparison. The name is read alone, and no comparison behind it. -/
inductive IsMisread : Slots Kind Mark → Prop
  | intro {i : Nat} (value : Option (Tree Kind Mark)) (h : (Lexeme.kindAt ls.all i).isName)
      (hp : Lexeme.kindAt ls.all (i + 1) = .period)
      (hn : ¬(Lexeme.kindAt ls.all (i + 2)).isName)
      (hc : (Lexeme.kindAt ls.all (i + 3)).isComparison) :
      IsMisread (.ofList [some (.node .propertyName
          (.ofList [none, none, some (.token (.run .identifier i 0))])),
        some (.token (.missing .equals)), value])

end Lexemes

/-- Whether behind each missing comma among the evaluations of a trigger stands one with a
property. -/
def FollowsGaps (P : Slots Kind Mark → Prop) (trigger : Slots Kind Mark) : Prop :=
  ∀ before after, trigger.itemsIn 2 = before ++ .token (.missing .comma) :: after →
    ∃ e rest, after = .node .propertyTriggerEvaluation e :: rest ∧ P e

/-! ## Where values end -/

namespace Run

/-- A value ends with the text, or in front of a lexeme that ends it. -/
theorem valueLength_ends (context : Context) (first : Bool) (ls : List Lexeme) :
    ls.drop (valueLength context first ls) = [] ∨
      ∃ f l rest, ls.drop (valueLength context first ls) = l :: rest ∧
        endsValue context f l.kind rest := by
  fun_induction valueLength context first ls with
  | case1 first => exact .inl rfl
  | case2 first l rest h => exact .inr ⟨first, l, rest, rfl, h⟩
  | case3 first l rest h ih => simpa using ih

/-- A name that ends the value of an evaluation starts the next one, from afar. -/
theorem comparesNext_of_endsValue {first : Bool} {k : Kind} {rest : List Lexeme}
    (hk : k.isName) (hi : k ≠ .importantKeyword) (h : endsValue .evaluation first k rest) :
    comparesNext rest := by
  unfold endsValue at h
  split at h
  all_goals first | exact absurd hk (by decide) | exact absurd rfl hi | skip
  exact (Bool.and_eq_true_iff.mp h).2

end Run

namespace Production

variable {ls : Lexemes} {i j : Nat}

theorem value_stops {c : Cursor} (hn : (value .evaluation c).rest.kind.isName)
    (hi : (value .evaluation c).rest.kind ≠ .importantKeyword) :
    Run.comparesNext (value .evaluation c).rest.ahead.tail := by
  obtain ⟨p, -, -, hlexemes, hpass⟩ := contentOf_token (valueLength_le .evaluation true c.ahead)
  have hx : (value .evaluation c).rest
      = (bracedValue.contentOf (Run.valueLength .evaluation true c.ahead) c).rest := by
    rw [value_plain (by simp)]
    rfl
  rw [hx] at hn hi ⊢
  have hahead := hpass.ahead.symm
  rw [hlexemes] at hahead
  have hdrop := List.append_cancel_left
    (hahead.trans (List.take_append_drop (Run.valueLength .evaluation true c.ahead) _).symm)
  rcases Run.valueLength_ends .evaluation true c.ahead with hnil | ⟨f, l, rest, hcons, hends⟩
  · rw [Cursor.kind, Cursor.kindAt, hdrop, hnil] at hn
    cases hn
  · rw [Cursor.kind, Cursor.kindAt, hdrop, hcons] at hn hi
    rw [hdrop, hcons]
    exact Run.comparesNext_of_endsValue hn hi hends

/-- Where a name follows an evaluation, the name starts another one, from afar. -/
theorem evaluation_stops {c : Cursor} (hn : (evaluation c).rest.kind.isName)
    (hi : (evaluation c).rest.kind ≠ .importantKeyword) :
    Run.comparesNext (evaluation c).rest.ahead.tail := by
  have hx : (evaluation c).rest
      = (value .evaluation (comparison (qualifiedName .propertyName c).rest).rest).rest := by
    rw [evaluation, Parsing.evaluation, bind_apply, bind_apply, bind_apply, node_eq, pure_apply]
  rw [hx] at hn hi ⊢
  exact value_stops hn hi

/-! ## Behind a missing comma -/

section Separated

variable {listed : Listed} {starts : Cursor → Bool} {item : Production Draft} {role : SlotRole}
  {o : Outcome (List Draft)}

theorem Separated.exists_cons {c : Cursor} (h : Separated listed starts item c o)
    (hs : starts c) : ∃ more, o.value = (item c).value :: more := by
  cases h with
  | nothing hn => simp [hn] at hs
  | last | trailing | next | gap => exact ⟨_, rfl⟩

/-- An item leaves no missing comma. -/
theorem Item.marked_ne {c : Cursor} (h : Item item role c) (i : Nat) :
    (item c).value.shape.marked i ≠ .token (.missing .comma) := by
  intro he
  refine h.proper ?_
  generalize (item c).value = d at he
  match d with
  | .node kind slots => cases he
  | .token (.missing kind) =>
    cases he
    rfl
  | .token (.run kind first more) => cases he

theorem pair_eq_append {α : Type} {a b x : α} {l before after : List α}
    (h : a :: b :: l = before ++ x :: after) (ha : a ≠ x) :
    b = x ∧ l = after ∨ ∃ front, l = front ++ x :: after := by
  match before with
  | [] => exact absurd (List.cons.inj h).1 ha
  | [_] => exact .inl (List.cons.inj (List.cons.inj h).2)
  | _ :: _ :: front => exact .inr ⟨front, (List.cons.inj (List.cons.inj h).2).2⟩

/-- Behind a missing comma in a separated list stands an item, and what was read before it ended
there. -/
theorem Separated.behind_gap (hitem : ∀ c, starts c → Item item role c)
    {c : Cursor} (h : Separated listed starts item c o) (hc : c = ls.cursor i)
    {before after : List (Tree Kind Mark)}
    (hs : Draft.markedItems i o.value = before ++ .token (.missing .comma) :: after) :
    ∃ k j rest, starts (ls.cursor k) ∧ (item (ls.cursor k)).rest = ls.cursor j ∧
      starts (ls.cursor j) ∧ after = (item (ls.cursor j)).value.shape.marked j :: rest := by
  induction h generalizing i before with
  | nothing hn => simp [Draft.markedItems] at hs
  | last h hk hn =>
    cases before with
    | nil => exact absurd (List.cons.inj hs).1 ((hitem _ h).marked_ne i)
    | cons d front => simp [Draft.markedItems] at hs
  | trailing h hl hk hn =>
    rcases pair_eq_append hs ((hitem _ h).marked_ne i) with ⟨hcomma, -⟩ | ⟨front, hnil⟩
    · cases hcomma
    · simp [Draft.markedItems] at hnil
  | @next c l c' o h hl hk hn ht ih =>
    subst hc
    have hrest := Lexemes.eq_cursor (hitem _ h).fills.reading.passes
    rcases pair_eq_append hs ((hitem _ h).marked_ne i) with ⟨hcomma, -⟩ | ⟨front, htail⟩
    · cases hcomma
    · rw [hrest] at hl
      refine ih ?_ htail
      rw [Lexemes.eq_cursor hl]
      simp
  | @gap c o h hk hn ht ih =>
    subst hc
    have hrest := Lexemes.eq_cursor (hitem _ h).fills.reading.passes
    rw [List.map_singleton, Draft.lexemesOf_some, Draft.lexemesOf_nil, List.append_nil] at hrest
    rcases pair_eq_append hs ((hitem _ h).marked_ne i) with ⟨-, hafter⟩ | ⟨front, htail⟩
    · obtain ⟨more, hmore⟩ := ht.exists_cons hn
      rw [hmore, hrest] at hafter
      exact ⟨i, _, _, h, hrest, hrest ▸ hn, hafter.symm⟩
    · exact ih hrest htail

end Separated

/-! ## Evaluations -/

theorem comparison_present (hf : ls.final.kind = .eof)
    (h : (Lexeme.kindAt ls.all j).isComparison) :
    (comparison (ls.cursor j)).Lays ls j [some (comparison (ls.cursor j)).value]
      [some (.token (.run (Lexeme.kindAt ls.all j) j 0))] (j + 1) := by
  have hx : comparison (ls.cursor j) = take (ls.cursor j) := by
    simp [Parsing.comparison, holds, look, Lexemes.kind_cursor hf, h]
  have he : Lexeme.kindAt ls.all j ≠ .eof := by
    rintro he
    simp [he, Kind.isComparison] at h
  rw [hx]
  exact take_lays hf he

theorem comparison_absent (hf : ls.final.kind = .eof)
    (h : ¬(Lexeme.kindAt ls.all j).isComparison) :
    (comparison (ls.cursor j)).Lays ls j [some (comparison (ls.cursor j)).value]
      [some (.token (.missing .equals))] j := by
  have hx : comparison (ls.cursor j) = lacking .equals .expectedComparison (ls.cursor j) := by
    simp [Parsing.comparison, holds, look, Lexemes.kind_cursor hf, h]
  rw [hx]
  exact ⟨⟨rfl, rfl⟩, rfl⟩

/-- An evaluation with a comparison behind its name. -/
theorem evaluation_compared (hf : ls.final.kind = .eof)
    {names : List (Option (Tree Kind Mark))} (hn : ls.IsName i names j)
    (hc : (Lexeme.kindAt ls.all j).isComparison) :
    ∃ e, (evaluation (ls.cursor i)).value.shape.marked i = .node .propertyTriggerEvaluation e ∧
      ls.IsCompared e := by
  have hname := qualifiedName_lays hf .propertyName hn (by rintro hp; simp [hp, Kind.isComparison] at hc)
  have hcompare := comparison_present hf hc
  rw [← hname.rest] at hcompare
  exact ⟨_, (hname.toLaid.cons <| hcompare.toLaid.cons ⟨rfl, rfl⟩).node _, .intro _ hn hc⟩

/-- A name with a period behind it, no name behind that, and then a comparison. -/
theorem evaluation_misread (hf : ls.final.kind = .eof) (h : (Lexeme.kindAt ls.all i).isName)
    (hp : Lexeme.kindAt ls.all (i + 1) = .period) (hn : ¬(Lexeme.kindAt ls.all (i + 2)).isName)
    (hc : (Lexeme.kindAt ls.all (i + 3)).isComparison) :
    ∃ e, (evaluation (ls.cursor i)).value.shape.marked i = .node .propertyTriggerEvaluation e ∧
      ls.IsMisread e := by
  have hname := qualifiedName_lays_alone hf .propertyName h (fun ho => hn ho.2)
  have hcompare := comparison_absent hf (j := i + 1) (by rw [hp]; decide)
  rw [← hname.rest] at hcompare
  exact ⟨_, (hname.toLaid.cons <| hcompare.toLaid.cons ⟨rfl, rfl⟩).node _, .intro _ h hp hn hc⟩

/-- What looks like an evaluation from afar. -/
theorem evaluation_marked (hf : ls.final.kind = .eof) (h : (Lexeme.kindAt ls.all i).isName)
    (hc : Run.comparesNext (ls.cursor i).ahead.tail) :
    ∃ e, (evaluation (ls.cursor i)).value.shape.marked i = .node .propertyTriggerEvaluation e ∧
      (ls.IsCompared e ∨ ls.IsMisread e) := by
  have hkind (n : Nat) : Lexeme.kindAt (ls.cursor i).ahead.tail n
      = Lexeme.kindAt ls.all (i + (n + 1)) := by
    rw [← Lexemes.kindAt_cursor hf, Cursor.kindAt, Lexeme.kindAt, Lexeme.kindAt,
      List.getElem?_tail]
  rw [Run.comparesNext, hkind, hkind, Bool.or_eq_true, Bool.and_eq_true, decide_eq_true_iff] at hc
  rcases hc with hc | ⟨hp, hc⟩
  · obtain ⟨e, he, hcompared⟩ := evaluation_compared hf (.alone h) hc
    exact ⟨e, he, .inl hcompared⟩
  by_cases hn : (Lexeme.kindAt ls.all (i + 2)).isName
  · obtain ⟨e, he, hcompared⟩ := evaluation_compared hf (.owned h hp hn) hc
    exact ⟨e, he, .inl hcompared⟩
  · obtain ⟨e, he, hmisread⟩ := evaluation_misread hf h hp hn hc
    exact ⟨e, he, .inr hmisread⟩

theorem propertyTrigger_marked (hf : ls.final.kind = .eof) {index : Nat} {slots : Slots Kind Piece}
    (h : (propertyTrigger (ls.cursor index)).value = .node .propertyTrigger slots) :
    FollowsGaps (fun e => ls.IsCompared e ∨ ls.IsMisread e)
      ((slots.map id Piece.shape).marked index) := by
  have hitem (c : Cursor) (h : evaluationStarts c) : Item evaluation .plain c :=
    evaluation_item (Bool.and_eq_true_iff.mp h).1
  have hfirst : Grown (ls.cursor index) _ _ :=
    @expect_grown .triggerKeyword rfl (by decide) (ls.cursor index)
  have hsecond : Grown _ _ _ :=
    @expect_grown .propertyKeyword rfl (by decide) (expect .triggerKeyword (ls.cursor index)).rest
  have hcursor := Lexemes.eq_cursor (hfirst.cons hsecond).passes
  rw [propertyTrigger_apply] at h
  obtain rfl := (Tree.node.inj h).2
  intro before after hs
  rw [Draft.marked_ofList] at hs
  have hitems := (Draft.itemsIn_markedRow index [_, _] _ _).symm.trans hs
  rw [evaluations_apply] at hitems
  obtain ⟨k, j, rest, -, hrest, hstarts, hafter⟩ :=
    (separated_separated (fun c h => (hitem c h).reads) _).behind_gap hitem hcursor hitems
  obtain ⟨hname, himportant⟩ := Bool.and_eq_true_iff.mp hstarts
  have hends := evaluation_stops (hrest ▸ hname) (hrest ▸ of_decide_eq_true himportant)
  rw [hrest] at hends
  rw [Lexemes.kind_cursor hf] at hname
  obtain ⟨e, he, hread⟩ := evaluation_marked hf hname hends
  exact ⟨e, rest, hafter.trans (congrArg (· :: rest) he), hread⟩

end Production

/-- Behind a missing comma between evaluations stands one with its comparison, or what was taken for
one. -/
theorem evaluations_behind_gaps (text : Text) : Stands text fun _ kind slots =>
    kind = .propertyTrigger → FollowsGaps
      (fun e => (Lexemes.scan text).IsCompared e ∨ (Lexemes.scan text).IsMisread e) slots := by
  refine stands_of_makes (by decide) (fun p hp => ?_) fun _ _ =>
    Production.propertyTrigger_marked (Lexemes.kind_final text)
  cases hp
  rfl

/-- Whether the last of three items is an evaluation without its comparison, behind a missing
comma. -/
def lacksAfterGap : List (Tree Kind Mark) → Bool
  | [_, .token (.missing .comma), .node .propertyTriggerEvaluation e] =>
    match e.toList with
    | [_, some (.token (.missing .equals)), _] => true
    | _ => false
  | _ => false

theorem lacksAfterGap_eq_false {ls : Lexemes} {trigger : Slots Kind Mark}
    (h : FollowsGaps ls.IsCompared trigger) : lacksAfterGap (trigger.itemsIn 2) = false := by
  unfold lacksAfterGap
  split
  · next first e hitems =>
    obtain ⟨e', rest, heq, hcompared⟩ := h [first] [.node .propertyTriggerEvaluation e] hitems
    cases heq
    cases hcompared
    rfl
  · rfl

/-- The value of `b=c` ends in front of `d.1=2`, which is no evaluation. -/
theorem evaluations_behind_gaps_misread :
    ¬Stands "a{trigger property b=c d.1=2{}}".toList fun _ kind slots =>
      kind = .propertyTrigger → FollowsGaps
        (Lexemes.scan "a{trigger property b=c d.1=2{}}".toList).IsCompared slots := by
  intro h
  have hnone := h.nodes.everywhere.mono fun kind slots hnode =>
    show kind = .propertyTrigger → lacksAfterGap (slots.itemsIn 2) = false from
      fun hkind => lacksAfterGap_eq_false (hnode hkind)
  exact absurd hnone (by decide +kernel)

end Stylesheet
