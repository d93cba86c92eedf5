import Stylesheet.Proofs.Reading.Loops

/-!
# Readings of declarations

A value takes a run of lexemes that were counted before; the counts never go past what is ahead.

Results:
* `value_puts`, `bracedValue_puts`: a value is a run, or missing where the run is empty.
* `rule_item`, `transition_item`: a declaration where it starts.
-/
namespace Stylesheet

theorem Run.bracedLength_other {l : Lexeme} (hl : l.kind ≠ .leftBrace) (hr : l.kind ≠ .rightBrace)
    (depth : Nat) (rest : List Lexeme) :
    bracedLength depth (l :: rest) = bracedLength depth rest + 1 := by
  conv => lhs; unfold bracedLength
  split <;> simp_all

namespace Production

variable {c : Cursor}

/-! ## Values -/

theorem valueLength_le (context : Run.Context) (first : Bool) (ls : List Lexeme) :
    Run.valueLength context first ls ≤ ls.length := by
  fun_induction Run.valueLength context first ls <;> simp_all

theorem bracedLength_le (depth : Nat) (ls : List Lexeme) : Run.bracedLength depth ls ≤ ls.length := by
  fun_induction Run.bracedLength depth ls <;> simp_all

theorem contentOf_puts {count : Nat} (h : count ≤ c.ahead.length) :
    (bracedValue.contentOf count c).Puts c .plain (some (bracedValue.contentOf count c).value)
      (.one .propertyValueToken) := by
  unfold bracedValue.contentOf Parsing.bracedValue.contentOf
  split
  · exact absent_puts rfl (by simp) c
  · next hn =>
    cases htake : c.ahead.take count with
    | nil =>
      rw [List.take_eq_nil_iff] at htake
      rcases htake with h0 | h0
      · exact absurd h0 hn
      · simp [h0] at h
        exact absurd h hn
    | cons first more =>
      exact (takeRun_puts htake h (.value first more) (SlotRole.admits_plain ..)).filled

theorem bracedValue_braced (h : c.kind = .leftBrace) :
    bracedValue c = (do
      let opening ← take
      let content ← bracedValue.contentOf (← look fun c => Run.bracedLength 0 c.ahead)
      let closing ← expect .rightBrace
      return Draft.composite .propertyValueWithBraces [opening, content, closing] :
        Production Draft) c := by
  simp [Parsing.bracedValue, sees, holds, look, h]

theorem bracedValue_bare (h : c.kind ≠ .leftBrace) :
    bracedValue c = (do
      let opening ← absent .leftBrace
      return Draft.composite .propertyValueWithBraces
        [opening, Draft.missing .propertyValueToken, Draft.missing .rightBrace] :
          Production Draft) c := by
  simp [Parsing.bracedValue, sees, holds, look, h]

theorem bracedValue_puts (c : Cursor) :
    (bracedValue c).Puts c .plain (some (bracedValue c).value) (.maybe .propertyValueWithBraces) := by
  by_cases h : c.kind = .leftBrace
  · have hfull : (take c).value.isMissing = false := take_present (by simp [h])
    rw [bracedValue_braced h]
    refine .node ?_ trivial rfl rfl (by decide)
    rw [Draft.withRoles_open hfull]
    exact .cons (takeKind_puts h (by decide)).filled <| .seen <|
      .cons (contentOf_puts (bracedLength_le ..)) <| .cons (expect_puts rfl (by decide) _) <|
      .done _ _
  · have hopen : (absent .leftBrace c).Puts c .plain (some (absent .leftBrace c).value)
        (.one .leftBrace) := absent_puts rfl (by simp) c
    rw [bracedValue_bare h]
    exact .node (.cons hopen <| .cover (.cover (.done _ _) rfl) rfl) trivial rfl rfl (by decide)

theorem value_braced {context : Run.Context} (h : c.kind = .leftBrace) (hc : context ≠ .evaluation) :
    value context c = bracedValue c := by
  simp [Parsing.value, holds, look, h, hc]

theorem value_plain {context : Run.Context} (h : ¬(c.kind = .leftBrace ∧ context ≠ .evaluation)) :
    value context c = (do
      let content ← bracedValue.contentOf (← look fun c => Run.valueLength context true c.ahead)
      return Draft.composite .propertyValue [content] : Production Draft) c := by
  simp [Parsing.value, holds, look, h]

theorem value_puts (context : Run.Context) (c : Cursor) :
    (value context c).Puts c .plain (some (value context c).value) Kind.values := by
  by_cases h : c.kind = .leftBrace ∧ context ≠ .evaluation
  · rw [value_braced h.1 h.2]
    exact (bracedValue_puts c).widen (by decide) nofun
  · rw [value_plain h]
    exact .node (.seen <| .cons (contentOf_puts (valueLength_le ..)) <| .done _ _) trivial rfl rfl (by decide)

/-! ## Rules -/

theorem rule_puts (c : Cursor) :
    (rule c).Puts c .plain (some (rule c).value) (.maybe .rule) :=
  .node (.cons (qualifiedName_puts (.inl rfl) _).filled <| .cons (expect_puts rfl (by decide) _) <|
    .cons (value_puts .declaration _) <| .cons (qualifier_puts _) <|
    .cons (expect_puts rfl (by decide) _) <| .done _ _) trivial rfl rfl (by decide)

theorem rule_item (h : c.kind.isName) : Item rule .plain c :=
  .of_puts (rule_puts c) (by decide) (by simp [Parsing.rule, qualifiedName_full h])

/-! ## Transitions -/

theorem name_item (role : SlotRole) (ha : role.Admits .identifier c.next [])
    (h : c.kind.isName) :
    Item (takeAs .identifier) role c :=
  .of_puts (takeName_puts h ha) (by decide) (takeName_full h)

theorem transitionArguments_puts (c : Cursor) :
    (transitionArguments c).Puts c .plain (some (transitionArguments c).value)
      (.maybe .transitionArgumentList) := by
  have hlist (c : Cursor) := @separated_puts .transitionArgument
    (fun c => nameStarts.contains c.kind) (takeAs .identifier) .plain c
    (fun c h => name_item _ (SlotRole.admits_plain ..) (contains_nameStarts _ ▸ h)) (.inl rfl) nofun
  exact .node (.cons (expect_puts rfl (by decide) _) <| .cons (hlist _) <|
    .cons (expect_puts rfl (by decide) _) <| .done _ _) trivial rfl rfl (by decide)

theorem transition_puts (h : c.kind = .transitionKeyword) :
    (transition c).Puts c .plain (some (transition c).value) (.maybe .transition) :=
  .node (.cons (takeKind_puts h (by decide)).filled <| .cons (transitionArguments_puts _).filled <|
    .cons (expect_puts rfl (by decide) _) <| .cons (value_puts .declaration _) <|
    .cons (qualifier_puts _) <| .cons (expect_puts rfl (by decide) _) <| .done _ _) trivial rfl rfl (by decide)

theorem transition_item (h : c.kind = .transitionKeyword) : Item transition .plain c :=
  .of_puts (transition_puts h) (by decide) (by simp [Parsing.transition, take_full (c := c) (by simp [h])])

end Production

end Stylesheet
