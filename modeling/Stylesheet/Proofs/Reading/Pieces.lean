import Stylesheet.Proofs.Reading

/-!
# Readings of pieces

What fills a slot with one piece: a lexeme, a run of lexemes, or a missing piece.

Results:
* `take_apply`, `takeAs_apply`, `takeRun_apply`: what the primitives do where there is something to
  read. Nowhere else do they go without a fault.
* `expect_puts`, `accept_puts`, `expectName_puts`, `qualifiedName_puts`, `qualifier_puts`.
-/
namespace Stylesheet.Production

variable {c : Cursor} {l : Lexeme} {rest : List Lexeme} {role : SlotRole}

/-! ## Primitives -/

/-- A production that looks first goes on with what it sees. -/
theorem look_first {α β : Type} (view : Cursor → α) (f : α → Production β) (c : Cursor) :
    @Bind.bind Production Parsing.toMonad.toBind α β (Parsing.look view) f c = f (view c) c := rfl

theorem holds_first {β : Type} (condition : Cursor → Bool) (f : Bool → Production β) (c : Cursor) :
    @Bind.bind Production Parsing.toMonad.toBind Bool β (Parsing.holds condition) f c
      = f (condition c) c := rfl

theorem takeRun_apply (kind : Kind) {count : Nat} {first : Lexeme} {more : List Lexeme}
    (h : c.ahead.take count = first :: more) (hc : count ≤ c.ahead.length) :
    takeRun kind count c = ⟨.token (.run kind first more), c.advance count, [], []⟩ := by
  simp [takeRun, h, pastEnd, hc]

theorem takeAs_apply (kind : Kind) (h : c.ahead = l :: rest) :
    takeAs kind c = ⟨.single kind l, c.advance 1, [], []⟩ :=
  takeRun_apply kind (by simp [h]) (by simp [h])

theorem take_apply (h : c.ahead = l :: rest) :
    take c = ⟨.single l.kind l, c.advance 1, [], []⟩ := by
  have hk : c.kind = l.kind := (Cursor.passes_one h).kind_eq
  unfold take
  rw [hk, takeAs_apply l.kind h]

theorem takeRun_puts {kind : Kind} {count : Nat} {first : Lexeme} {more : List Lexeme}
    (h : c.ahead.take count = first :: more) (hc : count ≤ c.ahead.length)
    (ht : Piece.Takes kind first more) (ha : role.Admits kind first more) :
    (takeRun kind count c).Puts c role (some (takeRun kind count c).value) (.maybe kind) := by
  rw [takeRun_apply kind h hc]
  exact ⟨⟨.run ht (h ▸ c.passes_take count) ha, rfl⟩, by simp [SlotRule.maybe, SlotRule.Allows]⟩

theorem takeAs_puts {kind : Kind} (h : c.ahead = l :: rest) (ht : Piece.Takes kind l [])
    (ha : role.Admits kind l []) :
    (takeAs kind c).Puts c role (some (takeAs kind c).value) (.maybe kind) :=
  takeRun_puts (by simp [h]) (by simp [h]) ht ha

theorem take_puts (h : c.kind ≠ .eof) (ha : role.Admits c.kind c.next []) :
    (take c).Puts c role (some (take c).value) (.maybe c.kind) := by
  obtain ⟨l, rest, hc, hk⟩ := Cursor.exists_ahead h
  have hn : c.next = l := (Cursor.passes_one hc).next_eq
  unfold take
  exact takeAs_puts hc (hk ▸ .same l) (hn ▸ ha)

theorem takeKind_puts {kind : Kind} (h : c.kind = kind) (he : kind ≠ .eof) :
    (take c).Puts c .plain (some (take c).value) (.maybe kind) :=
  h ▸ take_puts (h ▸ he) (SlotRole.admits_plain ..)

theorem take_present (h : c.kind ≠ .eof) : (take c).value.isMissing = false := by
  obtain ⟨l, rest, hc, -⟩ := Cursor.exists_ahead h
  simp [take_apply hc]

/-! ## What is there or missing -/

theorem lacking_puts {kind : Kind} {p : Problem} (hk : kind.isToken) (hp : p.code = .missingToken)
    (hr : role ≠ .covered) (c : Cursor) :
    (lacking kind p c).Puts c role (some (lacking kind p c).value) (.one kind) :=
  ⟨⟨.lacking c hk hp hr, rfl⟩, by simp [SlotRule.one, SlotRule.Allows, lacking]⟩

theorem absent_puts {kind : Kind} (hk : kind.isToken) (hr : role ≠ .covered) (c : Cursor) :
    (absent kind c).Puts c role (some (absent kind c).value) (.one kind) :=
  lacking_puts hk rfl hr c

theorem expect_of_kind {kind : Kind} (h : c.kind = kind) : expect kind c = take c := by
  simp [expect, sees, holds, look, h]

theorem expect_of_ne {kind : Kind} (h : c.kind ≠ kind) : expect kind c = absent kind c := by
  simp [expect, sees, holds, look, h]

theorem expect_puts {kind : Kind} (hk : kind.isToken) (he : kind ≠ .eof) (c : Cursor) :
    (expect kind c).Puts c .plain (some (expect kind c).value) (.one kind) := by
  by_cases h : c.kind = kind
  · rw [expect_of_kind h]
    exact (takeKind_puts h he).filled
  · rw [expect_of_ne h]
    exact absent_puts hk (by simp) c

theorem optional_false {α : Type} (p : Production α) (c : Cursor) :
    optional false p c = ⟨none, c, [], []⟩ := rfl

theorem optional_true {α : Type} (p : Production α) (c : Cursor) :
    optional true p c = ⟨some (p c).value, (p c).rest, (p c).reports, (p c).faults⟩ := by
  simp [optional]

theorem optional_puts {condition : Bool} {p : Production Draft} {rule : SlotRule}
    (hr : role ≠ .needed) (ho : rule.mayBeEmpty = true)
    (hp : condition = true → (p c).Puts c role (some (p c).value) rule) :
    (optional condition p c).Puts c role (optional condition p c).value rule := by
  cases condition with
  | false => exact ⟨⟨.empty c hr, rfl⟩, ho⟩
  | true =>
    obtain ⟨⟨hread, hfault⟩, hallow⟩ := hp rfl
    rw [optional_true]
    exact ⟨⟨hread, hfault⟩, hallow⟩

theorem optional_plain_puts {condition : Bool} {p : Production Draft} {kind : Kind}
    (hp : ∀ c, (p c).Puts c .plain (some (p c).value) (.maybe kind)) (c : Cursor) :
    (optional condition p c).Puts c .plain (optional condition p c).value (.maybe kind) :=
  optional_puts (by simp) rfl fun _ => hp c

theorem accept_puts {kind : Kind} (he : kind ≠ .eof) (c : Cursor) :
    (accept kind c).Puts c .plain (accept kind c).value (.maybe kind) := by
  have hx : accept kind c = optional (decide (c.kind = kind)) take c := rfl
  rw [hx]
  refine optional_puts (by simp) rfl fun h => ?_
  exact takeKind_puts (of_decide_eq_true h) he

/-! ## Names -/

theorem contains_nameStarts (k : Kind) : nameStarts.contains k = k.isName := by
  rw [nameStarts, KindSet.contains_ofList]
  cases k <;> rfl

theorem ne_eof_of_isName {k : Kind} (h : k.isName) : k ≠ .eof := by
  rintro rfl; cases h

theorem takes_name {l : Lexeme} (h : l.kind.isName) : Piece.Takes .identifier l [] := by
  simp only [Kind.isName, Bool.or_eq_true, decide_eq_true_eq] at h
  rcases h with h | h
  · exact h ▸ .same l
  · exact .name h

/-- A name in the text is an identifier in the tree. -/
theorem takeName_puts (h : c.kind.isName) (ha : role.Admits .identifier c.next []) :
    (takeAs .identifier c).Puts c role (some (takeAs .identifier c).value) (.maybe .identifier) := by
  obtain ⟨l, rest, hc, hk⟩ := Cursor.exists_ahead (ne_eof_of_isName h)
  have hn : c.next = l := (Cursor.passes_one hc).next_eq
  exact takeAs_puts hc (takes_name (hk ▸ h)) (hn ▸ ha)

theorem expectName_of_isName (h : c.kind.isName) : expectName c = takeAs .identifier c := by
  simp [Parsing.expectName, seesAny, holds, look, contains_nameStarts, h]

theorem expectName_of_not (h : ¬c.kind.isName) : expectName c = absent .identifier c := by
  simp [Parsing.expectName, seesAny, holds, look, contains_nameStarts, h]

theorem expectName_puts (c : Cursor) :
    (expectName c).Puts c .plain (some (expectName c).value) (.one .identifier) := by
  by_cases h : c.kind.isName
  · rw [expectName_of_isName h]
    exact (takeName_puts h (SlotRole.admits_plain ..)).filled
  · rw [expectName_of_not h]
    exact absent_puts rfl (by simp) c

theorem optionalName_puts (c : Cursor) :
    (optionalName c).Puts c .plain (optionalName c).value (.maybe .identifier) := by
  have hx : optionalName c = optional (nameStarts.contains c.kind) (takeAs .identifier) c := rfl
  rw [hx]
  exact optional_puts (by simp) rfl fun h =>
    takeName_puts (contains_nameStarts _ ▸ h) (SlotRole.admits_plain ..)

/-- The owner of a name: it may be missing, in front of `.name`, and so may stay empty. -/
def ownerRule : SlotRule := ⟨[.identifier], true, true⟩

theorem qualifiedName_owned (kind : Kind) (h : (expectName c).rest.kind = .period)
    (hn : ((expectName c).rest.kindAt 1).isName) :
    qualifiedName kind c = (do
      let first ← expectName
      let period ← take
      let name ← takeAs .identifier
      return Draft.composite kind [first, period, name] : Production Draft) c := by
  simp [Parsing.qualifiedName, holds, look, h, hn]

theorem qualifiedName_alone (kind : Kind)
    (h : ¬((expectName c).rest.kind = .period ∧ ((expectName c).rest.kindAt 1).isName)) :
    qualifiedName kind c = (do
      let first ← expectName
      return Draft.composite kind [none, none, first] : Production Draft) c := by
  simp [Parsing.qualifiedName, holds, look, h]

/-- Behind a period and a name that were looked at, the period can be read, and then the name. -/
theorem kind_of_take (h : (c.kindAt 1).isName) : (take c).rest.kind = c.kindAt 1 := by
  obtain ⟨l, m, rest, hc, -, hm⟩ := Cursor.exists_ahead_two (ne_eof_of_isName h)
  rw [take_apply hc, ← hm]
  simp [Cursor.kind, Cursor.advance, Cursor.kindAt, Lexeme.kindAt, hc]

/-- The name of a property or an event stands in a row of three; only the last slot is always
filled. -/
theorem qualifiedName_puts {kind : Kind} (hk : kind = .propertyName ∨ kind = .eventName)
    (c : Cursor) :
    (qualifiedName kind c).Puts c .plain (some (qualifiedName kind c).value) (.maybe kind) := by
  have hfirst := expectName_puts c
  by_cases h : (expectName c).rest.kind = .period ∧ ((expectName c).rest.kindAt 1).isName
  · have howner : (expectName c).Puts c .plain (some (expectName c).value) ownerRule :=
      hfirst.widen (by simp [SlotRule.one, ownerRule]) (fun _ => rfl)
    have hdot := takeKind_puts h.1 (by decide)
    have hname := takeName_puts (c := (take (expectName c).rest).rest)
      (by rw [kind_of_take h.2]; exact h.2) (SlotRole.admits_plain ..)
    rw [qualifiedName_owned kind h.1 h.2]
    rcases hk with rfl | rfl
    all_goals exact .node (.cons howner <| .cons hdot <| .cons hname.filled <| .done _ _) trivial rfl rfl (by decide)
  · rw [qualifiedName_alone kind h]
    rcases hk with rfl | rfl
    all_goals exact .node (.skip (.skip (.cons hfirst <| .done _ _) rfl) rfl) trivial rfl rfl (by decide)

/-- `important`, or `!important` as one token. -/
theorem qualifier_puts (c : Cursor) :
    (qualifier c).Puts c .plain (qualifier c).value (.maybe .importantKeyword) := by
  by_cases hi : c.kind = .importantKeyword
  · have hx : qualifier c = (some <$> take) c := by simp [Parsing.qualifier, look, hi]
    have htake := takeKind_puts hi (by decide)
    rw [hx, map_apply]
    exact ⟨⟨htake.reading, htake.faultless⟩, htake.allowed⟩
  · by_cases hm : c.kind = .exclamationMark
    · have hx : qualifier c
          = optional (decide (c.kindAt 1 = .importantKeyword)) (takeRun .importantKeyword 2) c := by
        simp [Parsing.qualifier, look, holds, hm]
      rw [hx]
      refine optional_puts (by simp) rfl fun h => ?_
      have h : c.kindAt 1 = .importantKeyword := of_decide_eq_true h
      obtain ⟨l, m, rest, hc, hl, hw⟩ := Cursor.exists_ahead_two (c := c) (by simp [h])
      exact takeRun_puts (by simp [hc]) (by simp [hc]) (.important (hl.trans hm) (hw.trans h))
        (SlotRole.admits_plain ..)
    · have hx : qualifier c = ⟨none, c, [], []⟩ := by
        simp only [Parsing.qualifier, look_eq, look, bind_apply]
        rfl
      rw [hx]
      exact ⟨⟨.empty c (by simp), rfl⟩, rfl⟩

/-! ## Lexemes below -/

theorem take_full (h : c.kind ≠ .eof) : (take c).value.lexemes ≠ [] := by
  obtain ⟨l, rest, hc, -⟩ := Cursor.exists_ahead h
  simp [take_apply hc]

theorem expect_full {kind : Kind} (h : c.kind = kind) (he : kind ≠ .eof) :
    (expect kind c).value.lexemes ≠ [] := by
  rw [expect_of_kind h]
  exact take_full (h ▸ he)

theorem takeName_full (h : c.kind.isName) : (takeAs .identifier c).value.lexemes ≠ [] := by
  obtain ⟨l, rest, hc, -⟩ := Cursor.exists_ahead (ne_eof_of_isName h)
  simp [takeAs_apply .identifier hc]

theorem expectName_full (h : c.kind.isName) : (expectName c).value.lexemes ≠ [] := by
  rw [expectName_of_isName h]
  exact takeName_full h

theorem qualifiedName_full {kind : Kind} (h : c.kind.isName) :
    (qualifiedName kind c).value.lexemes ≠ [] := by
  have hfirst := expectName_full h
  by_cases hd : (expectName c).rest.kind = .period ∧ ((expectName c).rest.kindAt 1).isName
  · rw [qualifiedName_owned kind hd.1 hd.2]
    simp [hfirst]
  · rw [qualifiedName_alone kind hd]
    simp [hfirst]

end Stylesheet.Production
