import Stylesheet.Proofs.Standing

/-!
# Names of rules

In the body of a rule set a keyword can be the name of a property, alone or with an owner: what
starts with a name and a colon is a rule. `transition` is told from a transition by what follows it.

`trigger` is not: the keyword alone makes a trigger of what it starts, a colon behind it or not. No
property in a rule set can have this name, and none can have an owner of this name.

Results:
* `IsRule`: a rule, by its name and its colon.
* `rules_named`: what starts with a name and a colon is a rule, or a trigger by its first keyword.
* `rules_named_trigger`: the latter does happen.
-/
namespace Stylesheet

/-- A rule whose name has these slots, whose colon is the lexeme at an index, and whose value starts
behind the colon. -/
inductive IsRule (names : List (Option (Tree Kind Mark))) (colon : Nat) : Tree Kind Mark → Prop
  | intro (value : Tree Kind Mark) (qualifier semicolon : Option (Tree Kind Mark)) (count : Nat)
      (h : Mark.indicesBelow (some value) = List.range' (colon + 1) count) :
      IsRule names colon (.node .rule (.ofList
        [some (.node .propertyName (.ofList names)), some (.token (.run .colon colon 0)), some value,
          qualifier, semicolon]))

namespace Lexemes

/-- Whether what starts with a name and a colon in the body of a rule set has a property of the index
of its first lexeme, of the slots of the name, and of the index of the colon. -/
def NamedItems (ls : Lexemes)
    (P : Nat → List (Option (Tree Kind Mark)) → Nat → Tree Kind Mark → Prop)
    (ruleSet : Slots Kind Mark) : Prop :=
  ∀ t ∈ ruleSet.bodyIn 1, (∀ e, t ≠ .node .error e) →
    ∀ i names colon, (Mark.indicesBelow (some t)).head? = some i → ls.IsName i names colon →
      Lexeme.kindAt ls.all colon = .colon → P i names colon t

variable {ls : Lexemes} {i j : Nat} {names : List (Option (Tree Kind Mark))}

/-- Behind the first lexeme of a name stands a period or what follows the name. -/
theorem IsName.second (h : ls.IsName i names j) :
    Lexeme.kindAt ls.all (i + 1) = .period ∨ i + 1 = j := by
  cases h with
  | alone => exact .inr rfl
  | owned _ hp => exact .inl hp

end Lexemes

namespace Production

variable {ls : Lexemes} {i j : Nat} {names : List (Option (Tree Kind Mark))}

theorem rule_marked (hf : ls.final.kind = .eof) (hn : ls.IsName i names j)
    (hc : Lexeme.kindAt ls.all j = .colon) :
    IsRule names j ((rule (ls.cursor i)).value.shape.marked i) := by
  have hname := qualifiedName_lays hf .propertyName hn (by simp [hc])
  have hcolon := expect_lays hf hc (by decide)
  rw [← hname.rest] at hcolon
  obtain ⟨content, mark, semicolon, hvalue⟩ : ∃ content mark semicolon,
      (rule (ls.cursor i)).value = .composite .rule
        [some (qualifiedName .propertyName (ls.cursor i)).value,
          some (expect .colon (qualifiedName .propertyName (ls.cursor i)).rest).value,
          some content, mark, some semicolon] := ⟨_, _, _, rfl⟩
  rw [hvalue, (hname.toLaid.cons <| hcolon.toLaid.cons ⟨rfl, rfl⟩).node]
  exact .intro _ _ _ _ (Draft.indicesBelow_markedSlot (j + 1) (some content))

theorem ruleSetItem_marked (hf : ls.final.kind = .eof) (hn : ls.IsName i names j)
    (hc : Lexeme.kindAt ls.all j = .colon) :
    if Lexeme.kindAt ls.all i = .triggerKeyword then
      ∃ slots, (ruleSetItem (ls.cursor i)).value.shape.marked i = .node .propertyTrigger slots
    else IsRule names j ((ruleSetItem (ls.cursor i)).value.shape.marked i) := by
  have hkind := Lexemes.kind_cursor hf i
  have hnext : (ls.cursor i).kindAt 1 = .period ∨ (ls.cursor i).kindAt 1 = .colon := by
    rw [Lexemes.kindAt_cursor hf]
    exact hn.second.imp_right fun hj => by rw [hj, hc]
  split
  · next ht =>
    have hx : trigger (ls.cursor i) = propertyTrigger (ls.cursor i) := by
      rcases hnext with h | h <;> simp [Parsing.trigger, holds, look, h]
    rw [ruleSetItem_trigger (hkind.trans ht), hx, propertyTrigger_apply]
    exact ⟨_, Draft.marked_composite ..⟩
  · next ht =>
    rw [ruleSetItem_rule (hkind ▸ ht) (by rintro ⟨-, hp⟩; simp [hp] at hnext)]
    exact rule_marked hf hn hc

theorem ruleSet_marked (hf : ls.final.kind = .eof) {index : Nat} {slots : Slots Kind Piece}
    (h : (ruleSet (ls.cursor index)).value = .node .ruleSet slots) :
    ls.NamedItems (fun i names colon t =>
      if Lexeme.kindAt ls.all i = .triggerKeyword then ∃ trigger, t = .node .propertyTrigger trigger
      else IsRule names colon t) ((slots.map id Piece.shape).marked index) := by
  have hselectors : Grown (ls.cursor index) _ _ := @separated_grown .selector
    (fun c => partStarts.contains c.kind) navigatedSelector
    (fun _ h => (navigatedSelector_item h).reads) (fun c _ => navigatedSelector_grown c)
    (ls.cursor index)
  obtain rfl := (Tree.node.inj h).2
  rw [Draft.marked_ofList]
  refine block_each hf (fun _ => ruleSetItem_item) (fun k d hd => ?_) index [_] []
    (Lexemes.eq_cursor hselectors.passes)
  intro hno i names colon hfirst hn hc
  rcases blockStep_cases hd with ⟨-, rfl⟩ | ⟨⟨-, -, heof⟩, rfl⟩
  · obtain rfl : i = k := by
      rw [Mark.indicesBelow, Option.map_some, Option.getD_some, Draft.indices_marked,
        List.head?_range', Option.ite_none_left_eq_some] at hfirst
      exact (Option.some.inj hfirst.2).symm
    exact ruleSetItem_marked hf hn hc
  · obtain ⟨l, more, count, -, hx⟩ := unexpected_apply nameStarts heof
    rw [hx, Draft.marked_composite] at hno
    exact absurd rfl (hno _)

end Production

/-- What starts with a name and a colon in the body of a rule set is a rule, but for what starts with
the keyword of triggers. -/
theorem rules_named (text : Text) : Stands text fun _ kind slots =>
    kind = .ruleSet → (Lexemes.scan text).NamedItems (fun i names colon t =>
      if Lexeme.kindAt (Lexemes.scan text).all i = .triggerKeyword then
        ∃ trigger, t = .node .propertyTrigger trigger
      else IsRule names colon t) slots := by
  refine stands_of_makes (by decide) (fun p hp => ?_) fun _ _ =>
    Production.ruleSet_marked (Lexemes.kind_final text)
  cases hp
  rfl

/-- Whether an item is a trigger whose first lexeme is the one at an index. -/
def isTriggerAt (i : Nat) : Tree Kind Mark → Bool
  | .node .propertyTrigger slots => (slots.tokens.flatMap Mark.indices).head? = some i
  | _ => false

theorem isTriggerAt_eq_false {ls : Lexemes} {ruleSet : Slots Kind Mark} {i j : Nat}
    {names : List (Option (Tree Kind Mark))} (hn : ls.IsName i names j)
    (hc : Lexeme.kindAt ls.all j = .colon)
    (h : ls.NamedItems (fun _ names colon t => IsRule names colon t) ruleSet) :
    (ruleSet.bodyIn 1).any (isTriggerAt i) = false := by
  rw [List.any_eq_false]
  intro t ht hat
  unfold isTriggerAt at hat
  split at hat
  · cases h _ ht (fun _ he => by cases he) i names j (of_decide_eq_true hat) hn hc
  · cases hat

/-- `trigger:b;` is no rule. -/
theorem rules_named_trigger :
    ¬Stands "a{trigger:b;}".toList fun _ kind slots => kind = .ruleSet →
      (Lexemes.scan "a{trigger:b;}".toList).NamedItems
        (fun _ names colon t => IsRule names colon t) slots := by
  intro h
  have hname : (Lexemes.scan "a{trigger:b;}".toList).IsName 2
      [none, none, some (.token (.run .identifier 2 0))] 3 := .alone (by decide +kernel)
  have hnone := h.nodes.everywhere.mono fun kind slots hnode =>
    show kind = .ruleSet → (slots.bodyIn 1).any (isTriggerAt 2) = false from
      fun hkind => isTriggerAt_eq_false hname (by decide +kernel) (hnode hkind)
  exact absurd hnone (by decide +kernel)

end Stylesheet
