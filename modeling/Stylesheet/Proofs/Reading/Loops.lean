import Stylesheet.Proofs.Reading.Pieces

/-!
# Readings of loops

A loop is a reading if its steps are, and it ends without a fault if each step that answers
something reads a lexeme. The rows of items it makes are the lists of the tree.

Results:
* `many_fills`: the loop reads what its steps read.
* `many_stops`: where it ends, its step answers nothing.
* `many_row`: a loop makes a row of what its steps make.
* `unexpected_puts`, `block_puts`, `separated_puts`: the three loops of style sheets.
-/
namespace Stylesheet.Production

/-! ## Items -/

/-- What an item of a list does where it starts: it fills a place of the list with something that
is no comma, and reads a lexeme. -/
structure Item (item : Production Draft) (role : SlotRole) (c : Cursor) : Prop where
  fills : (item c).Fills c [(role, some (item c).value)]
  proper : (item c).value.kind ≠ .comma
  full : (item c).value.lexemes ≠ []

section Item

variable {item : Production Draft} {role : SlotRole} {rule : SlotRule} {c : Cursor}

theorem Item.of_puts (h : (item c).Puts c role (some (item c).value) rule)
    (hk : Kind.comma ∉ rule.kinds) (hf : (item c).value.lexemes ≠ []) : Item item role c :=
  ⟨h.toFills, fun he => hk (he ▸ h.allowed.1), hf⟩

theorem Item.reads (h : Item item role c) : (item c).rest.ahead.length < c.ahead.length := by
  have hp := h.fills.reading.passes
  exact hp.length_lt (by simpa using h.full)

end Item

/-! ## The loop -/

section Many

@[simp] theorem many_bind_apply {α β : Type} (step : Production (Option α))
    (f : List α → Production β) (c : Cursor) :
    ((many step : Production (List α)) >>= f) c
      = ⟨(f (many step c).value (many step c).rest).value,
        (f (many step c).value (many step c).rest).rest,
        (many step c).reports ++ (f (many step c).value (many step c).rest).reports,
        (many step c).faults ++ (f (many step c).value (many step c).rest).faults⟩ := rfl

theorem many_of_none {α : Type} {step : Production (Option α)} {c : Cursor}
    (h : (step c).value = none) :
    many step c = ⟨[], (step c).rest, (step c).reports, (step c).faults⟩ := by
  rw [many, h]

theorem many_of_some {α : Type} {step : Production (Option α)} {c : Cursor} {a : α}
    (h : (step c).value = some a) (hlt : (step c).rest.ahead.length < c.ahead.length) :
    many step c = ⟨a :: (many step (step c).rest).value, (many step (step c).rest).rest,
      (step c).reports ++ (many step (step c).rest).reports,
      (step c).faults ++ (many step (step c).rest).faults⟩ := by
  rw [many, h]
  simp only [hlt, if_true]

theorem many_of_idle {α : Type} {step : Production (Option α)} {c : Cursor} {a : α}
    (h : (step c).value = some a) (hlt : ¬(step c).rest.ahead.length < c.ahead.length) :
    many step c = ⟨[a], (step c).rest, (step c).reports, (step c).faults ++ [.idleStep]⟩ := by
  rw [many, h]
  simp only [hlt, if_false]

/-- A loop without a fault is made of steps without a fault, and each of them gets on. -/
theorem faults_many_nil {α : Type} {step : Production (Option α)} {c : Cursor}
    (h : (many step c).faults = []) :
    (step c).faults = [] ∧ ∀ a, (step c).value = some a →
      (step c).rest.ahead.length < c.ahead.length ∧ (many step (step c).rest).faults = [] := by
  cases ha : (step c).value with
  | none =>
    rw [many_of_none ha] at h
    exact ⟨h, fun _ hn => by cases hn⟩
  | some a =>
    by_cases hlt : (step c).rest.ahead.length < c.ahead.length
    · rw [many_of_some ha hlt] at h
      obtain ⟨hstep, htail⟩ := List.append_eq_nil_iff.mp h
      exact ⟨hstep, fun _ _ => ⟨hlt, htail⟩⟩
    · rw [many_of_idle ha hlt] at h
      exact absurd h (List.append_ne_nil_of_right_ne_nil _ (List.cons_ne_nil _ _))

/-- Each step of a loop ends it or reads an item. -/
def Steps (step : Production (Option Draft)) (role : SlotRole) : Prop :=
  ∀ c, step c = ⟨none, c, [], []⟩ ∨ ∃ item, step c = (some <$> item) c ∧ Item item role c

variable {step : Production (Option Draft)} {role : SlotRole}

theorem optional_steps {condition : Cursor → Bool} {item : Production Draft}
    (hitem : ∀ c, condition c → Item item role c) :
    Steps (do optional (← holds condition) item) role := by
  intro c
  cases h : condition c with
  | false => exact .inl (by simp [holds, look, h, optional_false])
  | true => exact .inr ⟨item, by simp [holds, look, h, optional_true], hitem c h⟩

theorem Steps.goesOn (hs : Steps step role) {c : Cursor} {d : Draft} (h : (step c).value = some d) :
    (step c).Fills c [(role, some d)] ∧ d.kind ≠ .comma ∧
      (step c).rest.ahead.length < c.ahead.length := by
  rcases hs c with hc | ⟨item, hc, hitem⟩
  · rw [hc] at h
    cases h
  · rw [hc, map_apply] at h ⊢
    cases h
    exact ⟨⟨hitem.fills.reading, hitem.fills.faultless⟩, hitem.proper, hitem.reads⟩

theorem Steps.ends (hs : Steps step role) {c : Cursor} (h : (step c).value = none) :
    step c = ⟨none, c, [], []⟩ := by
  rcases hs c with hc | ⟨item, hc, -⟩
  · exact hc
  · rw [hc, map_apply] at h
    cases h

/-- The loop reads a row of items. -/
theorem many_fills (hs : Steps step role) (c : Cursor) :
    (many step c).Fills c ((many step c).value.map fun d => (role, some d)) := by
  fun_induction many step c with
  | case1 c first hn =>
    rw [show first = ⟨none, c, [], []⟩ from hs.ends hn]
    exact ⟨.nil c, rfl⟩
  | case2 c first d hd hlt tail ih =>
    obtain ⟨⟨hread, hfault⟩, -⟩ := hs.goesOn hd
    exact ⟨hread.append ih.reading, by simp [first, hfault, tail, ih.faultless]⟩
  | case3 c first d hd hlt => exact absurd (hs.goesOn hd).2.2 hlt

theorem many_proper (hs : Steps step role) (c : Cursor) :
    ∀ d ∈ (many step c).value, d.kind ≠ .comma := by
  fun_induction many step c with
  | case1 c first hn => simp
  | case2 c first d hd hlt tail ih => simpa using ⟨(hs.goesOn hd).2.1, ih⟩
  | case3 c first d hd hlt => exact absurd (hs.goesOn hd).2.2 hlt

/-- Where the loop ends, its step answers nothing. -/
theorem many_stops (hs : Steps step role) (c : Cursor) :
    step (many step c).rest = ⟨none, (many step c).rest, [], []⟩ := by
  fun_induction many step c with
  | case1 c first hn =>
    rw [show first = ⟨none, c, [], []⟩ from hs.ends hn]
    exact hs.ends hn
  | case2 c first d hd hlt tail ih => exact ih
  | case3 c first d hd hlt => exact absurd (hs.goesOn hd).2.2 hlt

/-- A loop makes a row of what its steps make. -/
theorem many_row {R : Cursor → List (Option Draft) → Cursor → Prop} (hnil : ∀ c, R c [] c)
    (happend : ∀ {c c₁ c₂ a b}, R c a c₁ → R c₁ b c₂ → R c (a ++ b) c₂)
    (hs : Steps step role)
    (hstep : ∀ c d, (step c).value = some d → R c [some d] (step c).rest) (c : Cursor) :
    R c ((many step c).value.map some) (many step c).rest := by
  fun_induction many step c with
  | case1 c first hn =>
    rw [show first = ⟨none, c, [], []⟩ from hs.ends hn]
    exact hnil c
  | case2 c first d hd hlt tail ih => exact happend (hstep c d hd) ih
  | case3 c first d hd hlt => exact hstep c d hd

end Many

/-! ## What fits nowhere -/

theorem unexpectedLength_le (starts : KindSet) (first : Bool) (depth : Nat) (ls : List Lexeme) :
    Run.unexpectedLength starts first depth ls ≤ ls.length := by
  fun_induction Run.unexpectedLength starts first depth ls <;> simp_all

/-- The first lexeme is taken whatever it is. -/
theorem unexpectedLength_pos (starts : KindSet) (l : Lexeme) (rest : List Lexeme) :
    0 < Run.unexpectedLength starts true 0 (l :: rest) := by
  unfold Run.unexpectedLength
  simp only [Bool.not_true, Bool.false_and, Bool.false_eq_true, if_false]
  split <;> omega

theorem takeEach_apply {c : Cursor} {count : Nat} (hc : count ≤ c.ahead.length) :
    takeEach count c = ⟨(c.ahead.take count).map fun l => Draft.single l.kind l, c.advance count,
      [], []⟩ := by
  simp [takeEach, pastEnd, hc]

theorem unexpected_apply (starts : KindSet) {c : Cursor} (h : c.kind ≠ .eof) :
    ∃ l more count, c.ahead.take (count + 1) = l :: more ∧ unexpected starts c
      = ⟨.composite .error ((l :: more).map fun l => some (.single l.kind l)),
        c.advance (count + 1), [(Problem.unexpected l.kind).reportAt c.span], []⟩ := by
  obtain ⟨l, rest, hc, hk⟩ := Cursor.exists_ahead h
  have hle := unexpectedLength_le starts true 0 c.ahead
  have hpos : 0 < Run.unexpectedLength starts true 0 c.ahead :=
    hc ▸ unexpectedLength_pos starts l rest
  obtain ⟨count, hcount⟩ : ∃ n, Run.unexpectedLength starts true 0 c.ahead = n + 1 :=
    ⟨_, (Nat.succ_pred_eq_of_pos hpos).symm⟩
  have htake : c.ahead.take (count + 1) = l :: rest.take count := by rw [hc, List.take_succ_cons]
  refine ⟨l, rest.take count, count, htake, ?_⟩
  rw [hcount] at hle
  simp [Parsing.unexpected, look, report, hcount, takeEach_apply hle, htake, hk, Function.comp_def]

theorem unexpected_puts {starts : KindSet} {c : Cursor} {role : SlotRole} (h : c.kind ≠ .eof)
    (hr : role = .plain ∨ role = .item) :
    (unexpected starts c).Puts c role (some (unexpected starts c).value) (.maybe .error) := by
  obtain ⟨l, more, count, htake, hx⟩ := unexpected_apply starts h
  rw [hx]
  exact ⟨⟨.error (htake ▸ c.passes_take (count + 1)) hr, rfl⟩,
    by simp [SlotRule.maybe, SlotRule.Allows]⟩

theorem unexpected_full {starts : KindSet} {c : Cursor} (h : c.kind ≠ .eof) :
    (unexpected starts c).value.lexemes ≠ [] := by
  obtain ⟨l, more, count, htake, hx⟩ := unexpected_apply starts h
  simp [hx]

theorem unexpected_item {starts : KindSet} {c : Cursor} {role : SlotRole} (h : c.kind ≠ .eof)
    (hr : role = .plain ∨ role = .item) : Item (unexpected starts) role c :=
  .of_puts (unexpected_puts h hr) (by decide) (unexpected_full h)

/-! ## Lists -/

/-- A list in its slot, or the empty slot of a list without items. -/
theorem list_puts {α : Type} {o : Outcome α} {c : Cursor} {role : SlotRole} {items : List Draft}
    (h : o.Fills c (items.map fun d => (role.inner, some d))) (hr : role ≠ .covered)
    (hn : role = .needed → items ≠ []) (hk : ∀ d ∈ items, d.kind ≠ .comma) :
    o.Puts c role (Draft.list items) (.maybe .list) := by
  cases items with
  | nil =>
    have hempty : Reading o.rest [(role, none)] o.rest [] := .empty o.rest fun he => hn he rfl
    have hall := h.reading.append hempty
    rw [List.append_nil] at hall
    exact ⟨⟨hall, h.faultless⟩, rfl⟩
  | cons d rest =>
    have hlast : Draft.lastKind? (d :: rest) ≠ some .comma := by
      rw [Draft.lastKind?, List.getLast?_eq_some_getLast (List.cons_ne_nil _ _)]
      simpa using hk _ (List.getLast_mem _)
    refine ⟨⟨.list (by simp) h.reading hr hlast, h.faultless⟩, ?_⟩
    simp [Draft.list, SlotRule.maybe, SlotRule.Allows]

/-- A list that must not be empty, or the report that it is. -/
theorem needed_puts {α : Type} {o : Outcome α} {c : Cursor} {items : List Draft} {p : Problem}
    (hp : p.code = .missingToken) (hnil : items = [] → o.Fills c [])
    (hcons : items ≠ [] → o.Puts c .needed (Draft.list items) (.maybe .list)) {v : α} :
    Outcome.Puts
      ⟨v, o.rest, o.reports ++ if items.isEmpty then [p.reportAt o.rest.gap] else [], o.faults⟩
      c .needed (Draft.list items) (.maybe .list) := by
  cases items with
  | nil =>
    obtain ⟨hread, hfault⟩ := hnil rfl
    exact ⟨⟨hread.append (.needed o.rest hp), hfault⟩, rfl⟩
  | cons d rest =>
    obtain ⟨⟨hread, hfault⟩, hallow⟩ := hcons (by simp)
    exact ⟨⟨by simpa using hread, hfault⟩, hallow⟩

/-! ## Blocks -/

/-- One step of the loop of a block. -/
def blockStep (starts : KindSet) (item : Production Draft) : Production (Option Draft) := do
  if (← sees .rightBrace) || (← sees .eof) then return none
  else if ← seesAny starts then some <$> item
  else some <$> unexpected starts

section Block

variable {starts : KindSet} {item : Production Draft}

/-- What a block reads where it does not end. -/
def blockItem (starts : KindSet) (item : Production Draft) (c : Cursor) : Production Draft :=
  if starts.contains c.kind then item else unexpected starts

theorem blockStep_apply (c : Cursor) :
    blockStep starts item c
      = if c.kind = .rightBrace ∨ c.kind = .eof then ⟨none, c, [], []⟩
        else (some <$> blockItem starts item c) c := by
  by_cases h : c.kind = .rightBrace ∨ c.kind = .eof
  · simp [blockStep, sees, holds, look, h]
  · by_cases hs : starts.contains c.kind = true <;>
      simp_all [blockStep, blockItem, sees, seesAny, holds, look]

theorem blockItem_item (hitem : ∀ c, starts.contains c.kind → Item item .plain c) {c : Cursor}
    (h : c.kind ≠ .eof) : Item (blockItem starts item c) .plain c := by
  unfold blockItem
  split
  · next hs => exact hitem c hs
  · exact unexpected_item h (.inl rfl)

theorem blockStep_steps (hitem : ∀ c, starts.contains c.kind → Item item .plain c) :
    Steps (blockStep starts item) .plain := by
  intro c
  rw [blockStep_apply]
  by_cases h : c.kind = .rightBrace ∨ c.kind = .eof
  · exact .inl (if_pos h)
  · exact .inr ⟨_, if_neg h, blockItem_item hitem (not_or.mp h).2⟩

theorem block_apply (c : Cursor) :
    block starts item c
      = if c.kind = .leftBrace then
          (do
            let opening ← take
            let items ← many (blockStep starts item)
            let closing ← expect .rightBrace
            return Draft.composite .block [opening, Draft.list items, closing] :
              Production Draft) c
        else
          (do
            let opening ← absent .leftBrace
            return Draft.composite .block [opening, none, Draft.missing .rightBrace] :
              Production Draft) c := by
  split
  · next h => simp [Parsing.block, sees, holds, look, h, blockStep]
  · next h => simp [Parsing.block, sees, holds, look, h]

theorem block_puts (hitem : ∀ c, starts.contains c.kind → Item item .plain c) (c : Cursor) :
    (block starts item c).Puts c .plain (some (block starts item c).value) (.maybe .block) := by
  rw [block_apply]
  split
  · next h =>
    have hfull : (take c).value.isMissing = false := take_present (by simp [h])
    have hsteps := blockStep_steps hitem
    have hlist := @list_puts _ _ _ .plain _ (many_fills hsteps (take c).rest) (by simp) (by simp)
      (many_proper hsteps _)
    refine .node ?_ trivial rfl rfl (by decide)
    rw [Draft.withRoles_open hfull]
    exact .cons (takeKind_puts h (by decide)).filled <| .cons hlist <|
      .cons (expect_puts rfl (by decide) _) <| .done _ _
  · have hopen : (absent .leftBrace c).Puts c .plain (some (absent .leftBrace c).value)
        (.one .leftBrace) := absent_puts rfl (by simp) c
    exact .node (.cons hopen <| .skip (.cover (.done _ _) rfl) rfl) trivial rfl rfl (by decide)

end Block

/-! ## Separated lists -/

section Separated

variable {listed : Listed} {starts : Cursor → Bool} {item : Production Draft}

/-- One step of the loop of a separated list. -/
def separatedStep (listed : Listed) (starts : Cursor → Bool) (item : Production Draft) :
    Production (Option (List Draft)) := do
  if ← holds starts then
    let first ← item
    if ← sees .comma then
      let comma ← take
      if !(← holds starts) then report (.nothingAfterComma listed)
      return some [first, comma]
    else if ← holds starts then
      let comma ← absent .comma
      return some [first, comma]
    else return some [first]
  else return none

/-- How a separated list is read: it ends where no item starts or behind an item or a comma, and it
goes on behind a comma or where one is missing. -/
inductive Separated (listed : Listed) (starts : Cursor → Bool) (item : Production Draft) :
    Cursor → Outcome (List Draft) → Prop
  | nothing {c} (h : starts c = false) : Separated listed starts item c ⟨[], c, [], []⟩
  | last {c} (h : starts c) (hk : (item c).rest.kind ≠ .comma)
      (hn : starts (item c).rest = false) :
      Separated listed starts item c
        ⟨[(item c).value], (item c).rest, (item c).reports, (item c).faults⟩
  | trailing {c l c'} (h : starts c) (hl : (item c).rest.Passes [l] c') (hk : l.kind = .comma)
      (hn : starts c' = false) :
      Separated listed starts item c
        ⟨[(item c).value, .single l.kind l], c',
          (item c).reports ++ [(Problem.nothingAfterComma listed).reportAt c'.span],
          (item c).faults⟩
  | next {c l c' o} (h : starts c) (hl : (item c).rest.Passes [l] c') (hk : l.kind = .comma)
      (hn : starts c') (ht : Separated listed starts item c' o) :
      Separated listed starts item c
        ⟨(item c).value :: .single l.kind l :: o.value, o.rest, (item c).reports ++ o.reports,
          (item c).faults ++ o.faults⟩
  | gap {c o} (h : starts c) (hk : (item c).rest.kind ≠ .comma) (hn : starts (item c).rest)
      (ht : Separated listed starts item (item c).rest o) :
      Separated listed starts item c
        ⟨(item c).value :: .missing .comma :: o.value, o.rest,
          (item c).reports ++ (Problem.expected .comma).reportAt (item c).rest.gap :: o.reports,
          (item c).faults ++ o.faults⟩

theorem separated_apply (c : Cursor) :
    separated listed starts item c
      = let o := many (separatedStep listed starts item) c
        ⟨o.value.flatten, o.rest, o.reports, o.faults⟩ := by
  show ((many (separatedStep listed starts item) >>= fun groups => pure groups.flatten) :
    Production (List Draft)) c = _
  simp

theorem separatedStep_comma {c c' : Cursor} {l : Lexeme} {rest : List Lexeme} (h : starts c)
    (hl : (item c).rest.ahead = l :: rest) (hk : l.kind = .comma)
    (hc : c' = (item c).rest.advance 1) :
    separatedStep listed starts item c
      = ⟨some [(item c).value, .single l.kind l], c',
        (item c).reports
          ++ if starts c' then [] else [(Problem.nothingAfterComma listed).reportAt c'.span],
        (item c).faults⟩ := by
  have hkind : (item c).rest.kind = .comma := by rw [(Cursor.passes_one hl).kind_eq, hk]
  subst hc
  cases hs : starts ((item c).rest.advance 1) <;>
    simp [separatedStep, holds, sees, look, report, h, hkind, take_apply hl, hs]

theorem separatedStep_gap {c : Cursor} (h : starts c) (hk : (item c).rest.kind ≠ .comma)
    (hs : starts (item c).rest) :
    separatedStep listed starts item c
      = ⟨some [(item c).value, .missing .comma], (item c).rest,
        (item c).reports ++ [(Problem.expected .comma).reportAt (item c).rest.gap],
        (item c).faults⟩ := by
  simp [separatedStep, holds, sees, look, absent, lacking, reportGap, h, hk, hs]

theorem separatedStep_last {c : Cursor} (h : starts c) (hk : (item c).rest.kind ≠ .comma)
    (hs : starts (item c).rest = false) :
    separatedStep listed starts item c
      = ⟨some [(item c).value], (item c).rest, (item c).reports, (item c).faults⟩ := by
  simp [separatedStep, holds, sees, look, h, hk, hs]

theorem separatedStep_nothing {c : Cursor} (h : starts c = false) :
    separatedStep listed starts item c = ⟨none, c, [], []⟩ := by
  simp [separatedStep, holds, look, h]

theorem separated_nothing {c : Cursor} (h : starts c = false) :
    separated listed starts item c = ⟨[], c, [], []⟩ := by
  rw [separated_apply, many_of_none (by rw [separatedStep_nothing h]), separatedStep_nothing h]
  rfl

theorem separated_cons {c c' : Cursor} {group : List Draft} {r : List Diagnostic}
    {f : List Fault} (h : separatedStep listed starts item c = ⟨some group, c', r, f⟩)
    (hlt : c'.ahead.length < c.ahead.length) :
    separated listed starts item c
      = ⟨group ++ (separated listed starts item c').value, (separated listed starts item c').rest,
        r ++ (separated listed starts item c').reports,
        f ++ (separated listed starts item c').faults⟩ := by
  rw [separated_apply, separated_apply, many_of_some (a := group) (by rw [h]) (by rwa [h]), h]
  rfl

theorem separated_separated
    (hlt : ∀ c, starts c → (item c).rest.ahead.length < c.ahead.length) (c : Cursor) :
    Separated listed starts item c (separated listed starts item c) := by
  induction hn : c.ahead.length using Nat.strongRecOn generalizing c with
  | _ n ih =>
    subst hn
    cases h : starts c with
    | false => exact separated_nothing h ▸ .nothing h
    | true =>
      have hitem := hlt c h
      by_cases hk : (item c).rest.kind = .comma
      · obtain ⟨l, rest, hl, hlk⟩ := Cursor.exists_ahead (c := (item c).rest) (by simp [hk])
        have hpass := Cursor.passes_one hl
        have hshort := Nat.lt_trans (hpass.length_lt (by simp)) hitem
        have hstep := @separatedStep_comma listed _ _ _ _ _ _ h hl (hlk.trans hk) rfl
        rw [separated_cons hstep hshort]
        cases hs : starts ((item c).rest.advance 1) with
        | false =>
          rw [separated_nothing hs]
          simpa using .trailing h hpass (hlk.trans hk) hs
        | true =>
          simpa using .next h hpass (hlk.trans hk) hs (ih _ hshort _ rfl)
      · cases hs : starts (item c).rest with
        | false =>
          rw [separated_cons (separatedStep_last h hk hs) hitem, separated_nothing hs]
          simpa using .last h hk hs
        | true =>
          rw [separated_cons (separatedStep_gap h hk hs) hitem]
          simpa using .gap h hk hs (ih _ hitem _ rfl)

variable {role : SlotRole} {c : Cursor} {o : Outcome (List Draft)}

theorem Separated.ne_nil (h : Separated listed starts item c o) (hs : starts c) : o.value ≠ [] := by
  cases h with
  | nothing hn => simp [hn] at hs
  | last | trailing | next | gap => simp

theorem admits_comma {l : Lexeme} (hr : role = .plain ∨ role = .argument ∨ role = .needed)
    (hk : l.kind = .comma) : role.inner.Admits l.kind l [] := by
  rcases hr with rfl | rfl | rfl
  · trivial
  · exact .inl hk
  · trivial

theorem lastKind?_cons_cons (d e : Draft) {items : List Draft} (hn : items ≠ []) :
    Draft.lastKind? (d :: e :: items) = Draft.lastKind? items := by
  obtain ⟨x, rest, rfl⟩ := List.exists_cons_of_ne_nil hn
  simp [Draft.lastKind?]

/-- The reading of a separated list: a report on a comma at its end comes last. -/
theorem Separated.reading (hitem : ∀ c, starts c → Item item role.inner c)
    (hr : role = .plain ∨ role = .argument ∨ role = .needed)
    (h : Separated listed starts item c o) (hs : starts c) :
    o.faults = [] ∧ ∃ r, Reading c (o.value.map fun d => (role.inner, some d)) o.rest r ∧
      (o.reports = r ∧ Draft.lastKind? o.value ≠ some .comma ∨
        o.reports = r ++ [(Problem.nothingAfterComma listed).reportAt o.rest.span] ∧
          Draft.lastKind? o.value = some .comma) := by
  induction h with
  | nothing hn => simp [hn] at hs
  | last h hk hn =>
    have hi := (hitem _ h).fills
    exact ⟨hi.faultless, _, hi.reading, .inl ⟨rfl, by simp [Draft.lastKind?, (hitem _ h).proper]⟩⟩
  | trailing h hl hk hn =>
    have hi := (hitem _ h).fills
    have hcomma : Reading _ [(role.inner, some (.single _ _))] _ [] :=
      .run (.same _) hl (admits_comma hr hk)
    refine ⟨hi.faultless, _, hi.reading.append hcomma, .inr ⟨by simp, ?_⟩⟩
    simp [Draft.lastKind?, hk]
  | @next c l c' o h hl hk hn ht ih =>
    have hi := (hitem _ h).fills
    have hcomma : Reading _ [(role.inner, some (.single _ _))] _ [] :=
      .run (.same _) hl (admits_comma hr hk)
    obtain ⟨hfault, r, hread, hend⟩ := ih hn
    refine ⟨by simp [hi.faultless, hfault], _, (hi.reading.append hcomma).append hread, ?_⟩
    rw [lastKind?_cons_cons _ _ (ht.ne_nil hn)]
    rcases hend with ⟨hrep, hlast⟩ | ⟨hrep, hlast⟩
    · exact .inl ⟨by simp [hrep], hlast⟩
    · exact .inr ⟨by simp [hrep], hlast⟩
  | @gap c o h hk hn ht ih =>
    have hi := (hitem _ h).fills
    have hcomma : Reading (item c).rest [(role.inner, some (.missing .comma))] (item c).rest
        [(Problem.expected .comma).reportAt (item c).rest.gap] :=
      .lacking _ rfl rfl (by rcases hr with rfl | rfl | rfl <;> decide)
    obtain ⟨hfault, r, hread, hend⟩ := ih hn
    refine ⟨by simp [hi.faultless, hfault], _, (hi.reading.append hcomma).append hread, ?_⟩
    rw [lastKind?_cons_cons _ _ (ht.ne_nil hn)]
    rcases hend with ⟨hrep, hlast⟩ | ⟨hrep, hlast⟩
    · exact .inl ⟨by simp [hrep], hlast⟩
    · exact .inr ⟨by simp [hrep], hlast⟩

/-- A separated list in its slot. Where a list is needed, an empty one is left to its owner. -/
theorem separated_puts (hitem : ∀ c, starts c → Item item role.inner c)
    (hr : role = .plain ∨ role = .argument ∨ role = .needed) (hs : role = .needed → starts c) :
    (separated listed starts item c).Puts c role (Draft.list (separated listed starts item c).value)
      (.maybe .list) := by
  have hsep : Separated listed starts item c _ :=
    separated_separated (fun c h => (hitem c h).reads) c
  cases h : starts c with
  | false =>
    rw [separated_nothing h]
    exact ⟨⟨.empty c fun he => by simp [hs he] at h, rfl⟩, rfl⟩
  | true =>
    have hn := hsep.ne_nil h
    obtain ⟨hfault, r, hread, hend⟩ := hsep.reading hitem hr h
    have hcov : role ≠ .covered := by rcases hr with rfl | rfl | rfl <;> decide
    have hlist : Draft.list (separated listed starts item c).value
        = some (.composite .list ((separated listed starts item c).value.map some)) := by
      simp [Draft.list, hn]
    rw [hlist]
    refine ⟨⟨?_, hfault⟩, by simp [SlotRule.maybe, SlotRule.Allows]⟩
    rcases hend with ⟨hrep, hlast⟩ | ⟨hrep, hlast⟩
    · exact hrep ▸ .list hn hread hcov hlast
    · exact hrep ▸ .trailing listed hn hread hcov hlast

/-- A separated list that starts with an item fills a slot that asks for one. -/
theorem separated_one_puts (hitem : ∀ c, starts c → Item item .plain c) (hs : starts c) :
    (separated listed starts item c).Puts c .plain
      (Draft.list (separated listed starts item c).value) (.one .list) := by
  have hputs := @separated_puts listed starts item .plain c hitem (.inl rfl) nofun
  have hsep : Separated listed starts item c _ :=
    separated_separated (fun c h => (hitem c h).reads) c
  cases hv : (separated listed starts item c).value with
  | nil => exact absurd hv (hsep.ne_nil hs)
  | cons d rest =>
    rw [hv] at hputs
    exact hputs.filled

theorem separated_full (hitem : ∀ c, starts c → Item item .plain c) (hs : starts c)
    (rest : List (Option Draft)) :
    Draft.lexemesOf (Draft.list (separated listed starts item c).value :: rest) ≠ [] := by
  have hsep : Separated listed starts item c _ :=
    separated_separated (fun c h => (hitem c h).reads) c
  have hfull := (hitem c hs).full
  generalize separated listed starts item c = o at hsep
  cases hsep with
  | nothing hn => simp [hn] at hs
  | last | trailing | next | gap => simp [Draft.list, hfull]

end Separated

end Stylesheet.Production
