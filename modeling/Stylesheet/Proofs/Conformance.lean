import Stylesheet.Proofs.Checks
import Stylesheet.Proofs.Contents
import Stylesheet.Proofs.Inventory

/-!
# Every tree keeps to the tables

A reading says already that the slots of each node hold what the row of its kind allows. What is
left is what rows do not see: the items of lists and of blocks, and the owner of a name. This does
not depend on where a production starts nor on what it reports, so it is a property of the values
of productions alone, and one lemma for each of them follows its text.

Results:
* `Draft.Tidy`: a draft of one of several kinds, with the contents that all its slots ask for.
* `Production.block_proper`, `Production.separated_proper`: blocks and lists of tidy items.
* `keeps_parse`: every node of every parse keeps to the tables.
-/
namespace Stylesheet

/-- The part of `Keeps` that rows of slots do not tell. -/
structure Tight (kind : Kind) (slots : Slots Kind Token) : Prop where
  contents : ∀ i e, slots.toList[i]? = some (some e) → (kind.contents i).Of e
  owner : kind.hasOwner → OwnerWithPeriod slots.toList

namespace Draft

/-- What fills a slot has the contents asked for, and all nodes below are tight. -/
def Proper (content : Contents) (slot : Option Draft) : Prop :=
  ∀ d, slot = some d → content.Of d.element ∧ d.element.Everywhere Tight

/-- Slots of a node, the first of them being slot `index`, filled with what they ask for. -/
def Propers (kind : Kind) (index : Nat) : List (Option Draft) → Prop
  | [] => True
  | s :: rest => Proper (kind.contents index) s ∧ Propers kind (index + 1) rest

/-- A present draft of one of the kinds, tight all over. -/
structure Tidy (kinds : List Kind) (d : Draft) : Prop where
  mem : d.kind ∈ kinds
  present : d.isMissing = false
  tight : d.element.Everywhere Tight

theorem isMissing_element (d : Draft) : d.element.isMissing = d.isMissing := by
  match d with
  | .token (.run ..) | .token (.missing _) | .node .. => rfl

theorem toList_composite (kind : Kind) (slots : List (Option Draft)) :
    (composite kind slots).element.slots.toList = slots.map (Option.map element) :=
  toList_slots slots

variable {kind : Kind} {kinds : List Kind} {slots : List (Option Draft)} {content : Contents}

theorem Tidy.mono {kinds' : List Kind} {d : Draft} (h : d.Tidy kinds) (hk : kinds ⊆ kinds') :
    d.Tidy kinds' := ⟨hk h.mem, h.present, h.tight⟩

theorem Tidy.isItem {d : Draft} (h : d.Tidy kinds) : Element.IsItem kinds d.element :=
  ⟨by rw [kind_element]; exact h.mem, by rw [isMissing_element]; exact h.present⟩

theorem Tidy.proper {d : Draft} (h : d.Tidy kinds) : Proper .any (some d) := by
  rintro _ ⟨⟩
  exact ⟨trivial, h.tight⟩

theorem proper_none : Proper content none := nofun

theorem proper_token (p : Piece) : Proper .any (some (Tree.token p)) := by
  rintro _ ⟨⟩
  exact ⟨trivial, trivial⟩

/-! ## Nodes -/

theorem Propers.get {index : Nat} (h : Propers kind index slots) {i : Nat} {s : Option Draft}
    (hs : slots[i]? = some s) : Proper (kind.contents (index + i)) s := by
  induction slots generalizing index i with
  | nil => simp at hs
  | cons first rest ih =>
    cases i with
    | zero =>
      cases hs
      exact h.1
    | succ i =>
      have hrest := ih h.2 hs
      rwa [Nat.add_right_comm, Nat.add_assoc] at hrest

theorem Propers.everywhere {index : Nat} (h : Propers kind index slots) :
    ((Slots.ofList slots).map id Piece.token).Everywhere Tight := by
  induction slots generalizing index with
  | nil => trivial
  | cons first rest ih =>
    cases first with
    | none => exact ih h.2
    | some d => exact ⟨(h.1 d rfl).2, ih h.2⟩

/-- Slots that hold what they ask for make a tight node. -/
theorem everywhere_composite (h : Propers kind 0 slots)
    (ho : kind.hasOwner → OwnerWithPeriod (slots.map (Option.map element))) :
    (composite kind slots).element.Everywhere Tight := by
  refine ⟨⟨fun i e he => ?_, fun hk => ?_⟩, h.everywhere⟩
  · rw [toList_slots, List.getElem?_map, Option.map_eq_some_iff] at he
    obtain ⟨s, hs, he⟩ := he
    obtain ⟨d, rfl, rfl⟩ := Option.map_eq_some_iff.mp he
    have hproper := h.get hs
    rw [Nat.zero_add] at hproper
    exact (hproper d rfl).1
  · rw [toList_slots]
    exact ho hk

theorem Tidy.owned (hk : kind ∈ kinds) (h : Propers kind 0 slots)
    (ho : OwnerWithPeriod (slots.map (Option.map element))) : (composite kind slots).Tidy kinds :=
  ⟨hk, rfl, everywhere_composite h fun _ => ho⟩

theorem Tidy.node (hk : kind ∈ kinds) (ho : kind.hasOwner = false) (h : Propers kind 0 slots) :
    (composite kind slots).Tidy kinds :=
  ⟨hk, rfl, everywhere_composite h fun hn => by simp [ho] at hn⟩

/-! ## Lists -/

theorem propers_some {items : List Draft} (hk : ∀ i, kind.contents i = .any)
    (h : ∀ d ∈ items, d.element.Everywhere Tight) (index : Nat) :
    Propers kind index (items.map some) := by
  induction items generalizing index with
  | nil => trivial
  | cons d rest ih =>
    refine ⟨?_, ih (fun e he => h e (List.mem_cons_of_mem _ he)) (index + 1)⟩
    rw [hk]
    rintro _ ⟨⟩
    exact ⟨trivial, h d List.mem_cons_self⟩

theorem everywhere_items {items : List Draft} (hk : kind = .list ∨ kind = .error)
    (h : ∀ d ∈ items, d.element.Everywhere Tight) :
    (composite kind (items.map some)).element.Everywhere Tight := by
  rcases hk with rfl | rfl
  · exact everywhere_composite (propers_some (fun _ => rfl) h 0) nofun
  · exact everywhere_composite (propers_some (fun _ => rfl) h 0) nofun

/-- What a list asks for depends on its items alone. -/
theorem proper_list {items : List Draft} (h : ∀ d ∈ items, d.element.Everywhere Tight)
    (ho : items ≠ [] → content.Of (composite .list (items.map some)).element) :
    Proper content (Draft.list items) := by
  unfold Draft.list
  cases items with
  | nil => exact proper_none
  | cons d rest =>
    rintro _ ⟨⟩
    exact ⟨ho (List.cons_ne_nil _ _), everywhere_items (.inl rfl) h⟩

theorem areItems_composite {items : List Draft} (h : ∀ d ∈ items, d.Tidy kinds) :
    AreItems kinds (composite kind (items.map some)).element.slots.toList := by
  rw [toList_composite, List.map_map]
  intro s hs
  obtain ⟨d, hd, rfl⟩ := List.mem_map.mp hs
  exact ⟨d.element, rfl, (h d hd).isItem⟩

theorem proper_items {items : List Draft} (h : ∀ d ∈ items, d.Tidy kinds) :
    Proper (.items kinds) (Draft.list items) :=
  proper_list (fun d hd => (h d hd).tight) fun _ => areItems_composite h

end Draft

namespace Production

open Draft

variable {kinds : List Kind} {content : Contents} {c : Cursor}

/-! ## Pieces -/

theorem takeRun_proper (kind : Kind) (count : Nat) (c : Cursor) :
    Proper .any (some (takeRun kind count c).value) := by
  unfold takeRun
  split
  · exact proper_token _
  · exact proper_token _

theorem take_proper (c : Cursor) : Proper .any (some (take c).value) := takeRun_proper _ _ c

theorem expect_proper (kind : Kind) (c : Cursor) : Proper .any (some (expect kind c).value) := by
  by_cases h : c.kind = kind
  · rw [expect_of_kind h]
    exact take_proper c
  · rw [expect_of_ne h]
    exact proper_token _

theorem expectName_proper (c : Cursor) : Proper .any (some (expectName c).value) := by
  by_cases h : c.kind.isName
  · rw [expectName_of_isName h]
    exact takeRun_proper _ _ c
  · rw [expectName_of_not h]
    exact proper_token _

theorem optional_proper {condition : Bool} {p : Production Draft}
    (h : condition → Proper content (some (p c).value)) :
    Proper content (optional condition p c).value := by
  cases condition with
  | false => exact proper_none
  | true => exact h rfl

theorem optionalName_proper (c : Cursor) : Proper .any (optionalName c).value :=
  optional_proper fun _ => takeRun_proper _ _ c

theorem accept_proper (kind : Kind) (c : Cursor) : Proper .any (accept kind c).value := by
  by_cases h : c.kind = kind
  · have hx : accept kind c = (some <$> take) c := by simp [accept, sees, holds, look, h]
    rw [hx]
    exact take_proper c
  · have hx : accept kind c = ⟨none, c, [], []⟩ := by simp [accept, sees, holds, look, h]
    rw [hx]
    exact proper_none

theorem qualifier_proper (c : Cursor) : Proper .any (qualifier c).value := by
  by_cases hi : c.kind = .importantKeyword
  · have hx : qualifier c = (some <$> take) c := by simp [Parsing.qualifier, look, hi]
    rw [hx]
    exact take_proper c
  by_cases hm : c.kind = .exclamationMark
  · have hx : qualifier c
        = optional (decide (c.kindAt 1 = .importantKeyword)) (takeRun .importantKeyword 2) c := by
      simp [Parsing.qualifier, look, holds, hm]
    rw [hx]
    exact optional_proper fun _ => takeRun_proper _ _ c
  · have hx : qualifier c = ⟨none, c, [], []⟩ := by
      simp only [Parsing.qualifier, look_eq, look, bind_apply]
      rfl
    rw [hx]
    exact proper_none

/-- A name has both an owner and a period, or neither of them. -/
theorem qualifiedName_tidy {kind : Kind} (hk : kind = .propertyName ∨ kind = .eventName)
    (c : Cursor) : (qualifiedName kind c).value.Tidy [kind] := by
  by_cases h : (expectName c).rest.kind = .period ∧ ((expectName c).rest.kindAt 1).isName
  · rw [qualifiedName_owned kind h.1 h.2]
    rcases hk with rfl | rfl
    all_goals
      exact .owned List.mem_cons_self
        ⟨expectName_proper c, take_proper _, takeRun_proper .identifier 1 _, trivial⟩ rfl
  · rw [qualifiedName_alone kind h]
    rcases hk with rfl | rfl
    all_goals
      exact .owned List.mem_cons_self
        ⟨proper_none, proper_none, expectName_proper c, trivial⟩ rfl

/-- A lexeme that is there, taken as it is. -/
theorem take_tidy (hk : c.kind ∈ kinds) (he : c.kind ≠ .eof) : (take c).value.Tidy kinds := by
  obtain ⟨l, rest, hc, hl⟩ := Cursor.exists_ahead he
  rw [take_apply hc]
  exact ⟨by rwa [kind_single, hl], rfl, trivial⟩

theorem takeName_tidy (h : c.kind.isName) : (takeAs .identifier c).value.Tidy [.identifier] := by
  obtain ⟨l, rest, hc, -⟩ := Cursor.exists_ahead (ne_eof_of_isName h)
  rw [takeAs_apply .identifier hc]
  exact ⟨List.mem_cons_self, rfl, trivial⟩

/-! ## Loops -/

/-- The loop makes what its steps make. -/
theorem many_tidy {step : Production (Option Draft)}
    (h : ∀ c d, (step c).value = some d → d.Tidy kinds) (c : Cursor) :
    ∀ d ∈ (many step c).value, d.Tidy kinds := by
  fun_induction many step c with
  | case1 c first hn => simp
  | case2 c first d hd hlt tail ih => simpa using ⟨h c d hd, ih⟩
  | case3 c first d hd hlt => simpa using h c d hd

theorem optional_step_tidy {condition : Cursor → Bool} {item : Production Draft}
    (hitem : ∀ c, condition c → (item c).value.Tidy kinds) (c : Cursor) (d : Draft)
    (hd : ((do optional (← holds condition) item : Production (Option Draft)) c).value = some d) :
    d.Tidy kinds := by
  cases h : condition c with
  | false => simp [holds, look, h, optional_false] at hd
  | true =>
    simp only [holds, look, bind_apply, h, optional_true, Option.some.injEq] at hd
    exact hd ▸ hitem c h

theorem unexpected_tidy (starts : KindSet) (h : c.kind ≠ .eof) :
    (unexpected starts c).value.Tidy [.error] := by
  obtain ⟨l, more, count, -, hx⟩ := unexpected_apply starts h
  rw [hx]
  have hpieces (d : Draft) (hd : d ∈ (l :: more).map fun l => single l.kind l) :
      d.element.Everywhere Tight := by
    obtain ⟨l, -, rfl⟩ := List.mem_map.mp hd
    trivial
  have hall := everywhere_items (.inr rfl) hpieces
  rw [List.map_map] at hall
  exact ⟨List.mem_cons_self, rfl, hall⟩

theorem blockStep_tidy {starts : KindSet} {item : Production Draft}
    (h : ∀ c, starts.contains c.kind → (item c).value.Tidy kinds) (c : Cursor) (d : Draft)
    (hd : (blockStep starts item c).value = some d) : d.Tidy (.error :: kinds) := by
  rw [blockStep_apply] at hd
  split at hd
  · cases hd
  · next he =>
    cases hd
    unfold blockItem
    split
    · next hs => exact (h c hs).mono (List.subset_cons_self _ _)
    · exact (unexpected_tidy starts (not_or.mp he).2).mono (by simp)

theorem proper_block {opening closing : Draft} {items : List Draft}
    (ho : Proper .any (some opening)) (hi : ∀ d ∈ items, d.Tidy (.error :: kinds))
    (hc : Proper .any (some closing)) :
    Proper (.body kinds) (some (composite .block [some opening, Draft.list items, some closing])) := by
  have hlist : Proper .any (Draft.list items) :=
    proper_list (fun d hd => (hi d hd).tight) fun _ => trivial
  have htidy : (composite .block [some opening, Draft.list items, some closing]).Tidy [.block] :=
    .node List.mem_cons_self rfl ⟨ho, hlist, hc, trivial⟩
  rintro _ ⟨⟩
  refine ⟨fun list hl => ?_, htidy.tight⟩
  rw [toList_composite] at hl
  cases items with
  | nil => cases hl
  | cons d rest =>
    cases hl
    exact areItems_composite hi

/-- A block of tidy items has the body asked for. -/
theorem block_proper {starts : KindSet} {item : Production Draft}
    (h : ∀ c, starts.contains c.kind → (item c).value.Tidy kinds) (c : Cursor) :
    Proper (.body kinds) (some (block starts item c).value) := by
  rw [block_apply]
  split
  · exact proper_block (take_proper c) (many_tidy (blockStep_tidy h) (take c).rest)
      (expect_proper .rightBrace _)
  · have hnone : ∀ d ∈ ([] : List Draft), d.Tidy (.error :: kinds) := by simp
    exact proper_block (proper_token (.missing .leftBrace)) hnone
      (proper_token (.missing .rightBrace))

/-- A separated list of tidy items has items and commas in turn. -/
theorem Separated.alternate {listed : Listed} {starts : Cursor → Bool} {item : Production Draft}
    {o : Outcome (List Draft)} (hitem : ∀ c, starts c → (item c).value.Tidy kinds)
    (h : Separated listed starts item c o) :
    (∀ d ∈ o.value, d.element.Everywhere Tight) ∧
      (starts c → Alternate kinds (o.value.map fun d => some d.element)) := by
  induction h with
  | nothing h => exact ⟨by simp, fun hs => by simp [h] at hs⟩
  | last h hk hn =>
    refine ⟨?_, fun _ => .last (hitem _ h).isItem⟩
    simpa using (hitem _ h).tight
  | @trailing c l c' h hl hk hn =>
    have hcomma : Tidy [.comma] (.single l.kind l) := ⟨by simp [hk], rfl, trivial⟩
    refine ⟨?_, fun _ => .trailing (hitem _ h).isItem hcomma.isItem⟩
    simpa using ⟨(hitem _ h).tight, hcomma.tight⟩
  | @next c l c' o h hl hk hn ht ih =>
    have hcomma : Tidy [.comma] (.single l.kind l) := ⟨by simp [hk], rfl, trivial⟩
    refine ⟨?_, fun _ => .next (hitem _ h).isItem ?_ (ih.2 hn)⟩
    · simpa using ⟨(hitem _ h).tight, hcomma.tight, ih.1⟩
    · rw [kind_element]
      exact hk
  | @gap c o h hk hn ht ih =>
    refine ⟨?_, fun _ => .next (hitem _ h).isItem rfl (ih.2 hn)⟩
    have hcomma : (Draft.missing .comma).element.Everywhere Tight := trivial
    simpa using ⟨(hitem _ h).tight, hcomma, ih.1⟩

theorem separated_proper {listed : Listed} {starts : Cursor → Bool} {item : Production Draft}
    (hlt : ∀ c, starts c → (item c).rest.ahead.length < c.ahead.length)
    (hitem : ∀ c, starts c → (item c).value.Tidy kinds) (c : Cursor) :
    Proper (.separated kinds) (Draft.list (separated listed starts item c).value) := by
  have hsep : Separated listed starts item c _ := separated_separated hlt c
  obtain ⟨htight, halternate⟩ := hsep.alternate hitem
  refine proper_list htight fun hn => ?_
  cases hs : starts c with
  | false =>
    rw [separated_nothing hs] at hn
    exact absurd rfl hn
  | true =>
    rw [Contents.Of, toList_composite, List.map_map]
    exact halternate hs

/-! ## Selectors -/

theorem touchingName_proper (c : Cursor) : Proper .any (some (touchingName c).value) := by
  by_cases h : c.touching ∧ nameStarts.contains c.kind
  · have hx : touchingName c = takeAs .identifier c := by
      simp [Parsing.touchingName, holds, look, h]
    rw [hx]
    exact takeRun_proper _ _ c
  · have hx : touchingName c = absent .identifier c := by
      simp [Parsing.touchingName, holds, look, h]
    rw [hx]
    exact proper_token _

theorem touchingMark_proper (c : Cursor) : Proper .any (touchingMark c).value := by
  have hx : touchingMark c
      = optional (c.touching && decide (c.kind = .exclamationMark)) take c := rfl
  rw [hx]
  exact optional_proper fun _ => take_proper c

theorem subPart_tidy (c : Cursor) : (subPart c).value.Tidy [.selectorSubPart, .pseudoClass] := by
  by_cases hcolon : c.kind = .colon
  · rw [subPart_colon hcolon]
    exact .node (by simp) rfl ⟨take_proper c, touchingName_proper _, trivial⟩
  by_cases hmarked : c.kind = .period ∨ c.kind = .hash
  · rw [subPart_mark hmarked]
    exact .node List.mem_cons_self rfl
      ⟨take_proper c, touchingName_proper _, touchingMark_proper _, trivial⟩
  by_cases hstar : c.kind = .asterisk
  · rw [subPart_asterisk hstar]
    exact .node List.mem_cons_self rfl
      ⟨proper_none, take_proper c, touchingMark_proper _, trivial⟩
  · obtain ⟨hperiod, hhash⟩ := not_or.mp hmarked
    rw [subPart_name hperiod hhash hstar hcolon]
    exact .node List.mem_cons_self rfl
      ⟨proper_none, expectName_proper c, touchingMark_proper _, trivial⟩

theorem selectorPart_tidy (c : Cursor) : (selectorPart c).value.Tidy [.selectorPart] := by
  have hmore : ∀ d ∈ (many partStep (subPart c).rest).value,
      d.Tidy [.selectorSubPart, .pseudoClass] :=
    many_tidy (optional_step_tidy fun c _ => subPart_tidy c) _
  rw [selectorPart_apply]
  refine .node List.mem_cons_self rfl ⟨proper_items ?_, trivial⟩
  exact List.forall_mem_cons.mpr ⟨subPart_tidy c, hmore⟩

theorem componentStep_tidy (c : Cursor) (d : Draft) (hd : (componentStep c).value = some d) :
    d.Tidy (.selectorPart :: Kind.combinators) := by
  rw [componentStep_apply] at hd
  split at hd
  · next h =>
    cases hd
    have hk : c.kind ∈ Kind.combinators := by
      simpa [contains_combinators, Kind.combinators] using h
    refine take_tidy (List.mem_cons_of_mem _ hk) ?_
    rintro he
    simp [he, Kind.combinators] at hk
  · split at hd
    · cases hd
      exact (selectorPart_tidy c).mono (by simp)
    · cases hd

theorem selector_tidy (c : Cursor) : (selector c).value.Tidy [.selector] := by
  rw [selector_apply]
  exact .node List.mem_cons_self rfl
    ⟨proper_items (many_tidy componentStep_tidy c), trivial⟩

/-- A selector that starts with a part has a list of components. -/
theorem selector_filled (h : partStarts.contains c.kind) :
    Proper .filled (some (selector c).value) := by
  have htidy := selector_tidy c
  rintro _ ⟨⟩
  refine ⟨?_, htidy.tight⟩
  have hfull := selector_full h
  have hvalue : (selector c).value
      = composite .selector [Draft.list (many componentStep c).value] := by rw [selector_apply]
  rw [hvalue] at hfull ⊢
  cases hv : (many componentStep c).value with
  | nil => simp [hv, Draft.list] at hfull
  | cons d rest => exact ⟨_, rfl⟩

theorem parenthesizedSelector_tidy (c : Cursor) :
    (parenthesizedSelector c).value.Tidy [.selectorWithParentheses] :=
  .node List.mem_cons_self rfl
    ⟨expect_proper _ _, (selector_tidy _).proper, expect_proper _ _, trivial⟩

theorem indexer_tidy (c : Cursor) : (indexer c).value.Tidy [.navigationExpressionIndexer] :=
  .node List.mem_cons_self rfl
    ⟨expect_proper _ _, expect_proper _ _, expect_proper _ _, trivial⟩

theorem navigation_tidy (c : Cursor) : (navigation c).value.Tidy [.navigationExpression] :=
  .node List.mem_cons_self rfl
    ⟨expect_proper _ _, (qualifiedName_tidy (.inl rfl) _).proper,
      optional_proper fun _ => (indexer_tidy _).proper, expect_proper _ _, expectName_proper _,
      trivial⟩

theorem navigatedSelector_tidy (h : partStarts.contains c.kind) :
    (navigatedSelector c).value.Tidy [.selectorWithNavigationExpression] :=
  .node List.mem_cons_self rfl
    ⟨selector_filled h, optional_proper fun _ => (navigation_tidy _).proper, trivial⟩

/-! ## Declarations -/

theorem contentOf_proper (count : Nat) (c : Cursor) :
    Proper .any (some (bracedValue.contentOf count c).value) := by
  unfold bracedValue.contentOf Parsing.bracedValue.contentOf
  split
  · exact proper_token _
  · exact takeRun_proper _ _ c

theorem bracedValue_tidy (c : Cursor) : (bracedValue c).value.Tidy [.propertyValueWithBraces] := by
  by_cases h : c.kind = .leftBrace
  · rw [bracedValue_braced h]
    exact .node List.mem_cons_self rfl
      ⟨take_proper c, contentOf_proper _ _, expect_proper _ _, trivial⟩
  · rw [bracedValue_bare h]
    exact .node List.mem_cons_self rfl
      ⟨proper_token _, proper_token _, proper_token _, trivial⟩

theorem value_proper (context : Run.Context) (c : Cursor) :
    Proper .any (some (value context c).value) := by
  by_cases h : c.kind = .leftBrace ∧ context ≠ .evaluation
  · rw [value_braced h.1 h.2]
    exact (bracedValue_tidy c).proper
  · have htidy : (value context c).value.Tidy [.propertyValue] := by
      rw [value_plain h]
      exact .node List.mem_cons_self rfl ⟨contentOf_proper _ _, trivial⟩
    exact htidy.proper

theorem rule_tidy (c : Cursor) : (rule c).value.Tidy [.rule] :=
  .node List.mem_cons_self rfl
    ⟨(qualifiedName_tidy (.inl rfl) _).proper, expect_proper _ _, value_proper _ _,
      qualifier_proper _, expect_proper _ _, trivial⟩

theorem transitionArguments_tidy (c : Cursor) :
    (transitionArguments c).value.Tidy [.transitionArgumentList] := by
  have hname (c : Cursor) (h : nameStarts.contains c.kind) : c.kind.isName :=
    contains_nameStarts _ ▸ h
  have hlist (c : Cursor) : Proper (.separated [.identifier])
      (Draft.list (separated .transitionArgument (fun c => nameStarts.contains c.kind)
        (takeAs .identifier) c).value) :=
    separated_proper
      (fun c h => (name_item .plain (SlotRole.admits_plain ..) (hname c h)).reads)
      (fun c h => takeName_tidy (hname c h)) c
  exact .node List.mem_cons_self rfl ⟨expect_proper _ _, hlist _, expect_proper _ _, trivial⟩

theorem transition_tidy (c : Cursor) : (transition c).value.Tidy [.transition] :=
  .node List.mem_cons_self rfl
    ⟨take_proper c, (transitionArguments_tidy _).proper, expect_proper _ _, value_proper _ _,
      qualifier_proper _, expect_proper _ _, trivial⟩

/-! ## Triggers -/

theorem actionSelector_proper (c : Cursor) : Proper .any (actionSelector c).value := by
  have hx : actionSelector c
      = optional (decide (c.kind = .leftParen)) parenthesizedSelector c := rfl
  rw [hx]
  exact optional_proper fun _ => (parenthesizedSelector_tidy c).proper

theorem action_tidy (h : actionStarts.contains c.kind) : (action c).value.Tidy Kind.actions := by
  have hcases : c.kind = .playStoryboardKeyword ∨ c.kind = .playSfxKeyword ∨ c.kind = .setKeyword := by
    simpa [contains_actionStarts] using h
  rcases hcases with hk | hk | hk
  · rw [action_playStoryboard hk]
    exact .node (by decide) rfl
      ⟨take_proper c, actionSelector_proper _, value_proper _ _, accept_proper _ _, trivial⟩
  · rw [action_playSfx hk]
    exact .node (by decide) rfl
      ⟨take_proper c, value_proper _ _, accept_proper _ _, trivial⟩
  · rw [action_set hk]
    exact .node (by decide) rfl
      ⟨expect_proper _ _, (qualifiedName_tidy (.inl rfl) _).proper, actionSelector_proper _,
        value_proper _ _, accept_proper _ _, trivial⟩

theorem comparison_proper (c : Cursor) : Proper .any (some (comparison c).value) := by
  by_cases h : c.kind.isComparison
  · have hx : comparison c = take c := by simp [Parsing.comparison, holds, look, h]
    rw [hx]
    exact take_proper c
  · have hx : comparison c = lacking .equals .expectedComparison c := by
      simp [Parsing.comparison, holds, look, h]
    rw [hx]
    exact proper_token _

theorem evaluation_tidy (c : Cursor) : (evaluation c).value.Tidy [.propertyTriggerEvaluation] :=
  .node List.mem_cons_self rfl
    ⟨(qualifiedName_tidy (.inl rfl) _).proper, comparison_proper _, value_proper _ _, trivial⟩

theorem evaluations_proper (c : Cursor) :
    Proper (.separated [.propertyTriggerEvaluation]) (Draft.list (evaluations c).value) := by
  have hx : (evaluations c).value
      = (separated .evaluation evaluationStarts evaluation c).value := by rw [evaluations_apply]
  rw [hx]
  exact separated_proper (fun c h => (evaluation_item (Bool.and_eq_true_iff.mp h).1).reads)
    (fun c _ => evaluation_tidy c) c

theorem propertyTrigger_tidy (c : Cursor) :
    (propertyTrigger c).value.Tidy [.propertyTrigger] := by
  rw [propertyTrigger_apply]
  exact .node List.mem_cons_self rfl
    ⟨expect_proper _ _, expect_proper _ _, evaluations_proper _, qualifier_proper _,
      block_proper (fun _ => action_tidy) _, trivial⟩

theorem eventArgument_tidy (h : c.kind.isName) : (eventArgument c).value.Tidy Kind.names := by
  have hx : (eventArgument c).value = (take c).value := by
    by_cases hknown : c.kind = .handledKeyword ∨ c.kind = .setHandledKeyword
    · rw [eventArgument_known hknown]
    · rw [eventArgument_unknown (not_or.mp hknown).1 (not_or.mp hknown).2]
  have hk : c.kind ∈ Kind.names := by
    rw [← contains_nameStarts, nameStarts, KindSet.contains_ofList] at h
    exact of_decide_eq_true h
  rw [hx]
  exact take_tidy hk (ne_eof_of_isName h)

theorem eventArguments_tidy (c : Cursor) :
    (eventArguments c).value.Tidy [.eventTriggerArgumentList] := by
  have hlist (c : Cursor) : Proper (.separated Kind.names)
      (Draft.list (separated .eventArgument (fun c => c.kind.isName) eventArgument c).value) :=
    separated_proper (fun _ h => (eventArgument_item h).reads) (fun _ => eventArgument_tidy) c
  exact .node List.mem_cons_self rfl ⟨take_proper c, hlist _, expect_proper _ _, trivial⟩

theorem eventTrigger_tidy (c : Cursor) : (eventTrigger c).value.Tidy [.eventTrigger] :=
  .node List.mem_cons_self rfl
    ⟨expect_proper _ _, expect_proper _ _, (qualifiedName_tidy (.inr rfl) _).proper,
      optional_proper fun _ => (eventArguments_tidy _).proper, qualifier_proper _,
      block_proper (fun _ => action_tidy) _, trivial⟩

theorem trigger_tidy (c : Cursor) :
    (trigger c).value.Tidy [.propertyTrigger, .eventTrigger] := by
  by_cases h : c.kindAt 1 = .eventKeyword
  · have hx : trigger c = eventTrigger c := by simp [Parsing.trigger, holds, look, h]
    rw [hx]
    exact (eventTrigger_tidy c).mono (by simp)
  · have hx : trigger c = propertyTrigger c := by simp [Parsing.trigger, holds, look, h]
    rw [hx]
    exact (propertyTrigger_tidy c).mono (by simp)

/-! ## Storyboards -/

theorem keyframe_tidy (c : Cursor) : (keyframe c).value.Tidy [.animationKeyframe] :=
  .node List.mem_cons_self rfl
    ⟨expect_proper _ _, expect_proper _ _, optionalName_proper _, (bracedValue_tidy _).proper,
      trivial⟩

theorem animation_tidy (c : Cursor) : (animation c).value.Tidy [.animation] :=
  .node List.mem_cons_self rfl
    ⟨expect_proper _ _, (qualifiedName_tidy (.inl rfl) _).proper,
      optional_proper fun _ => (navigation_tidy _).proper,
      block_proper (fun c _ => keyframe_tidy c) _, trivial⟩

theorem target_tidy (c : Cursor) : (target c).value.Tidy [.storyboardTarget] :=
  .node List.mem_cons_self rfl
    ⟨expect_proper _ _, optionalName_proper _,
      optional_proper fun _ => (parenthesizedSelector_tidy _).proper,
      block_proper (fun c _ => animation_tidy c) _, trivial⟩

theorem loopBehavior_proper (c : Cursor) : Proper .any (some (loopBehavior c).value) := by
  have hx : (loopBehavior c).value = (takeAs .identifier c).value := by
    cases hb : isLoopBehavior c.next.text with
    | true => rw [loopBehavior_known hb]
    | false => rw [loopBehavior_unknown hb]
  rw [hx]
  exact takeRun_proper _ _ c

theorem storyboard_tidy (c : Cursor) : (storyboard c).value.Tidy [.storyboard] :=
  .node List.mem_cons_self rfl
    ⟨expect_proper _ _, expectName_proper _, optional_proper fun _ => loopBehavior_proper _,
      block_proper (fun c _ => target_tidy c) _, trivial⟩

/-! ## Style sheets -/

theorem ruleSetItem_tidy (c : Cursor) : (ruleSetItem c).value.Tidy Kind.ruleSetItems := by
  by_cases ht : c.kind = .triggerKeyword
  · rw [ruleSetItem_trigger ht]
    exact (trigger_tidy c).mono (by simp [Kind.ruleSetItems])
  by_cases hn : c.kind = .transitionKeyword ∧ c.kindAt 1 = .leftParen
  · rw [ruleSetItem_transition hn.1 hn.2]
    exact (transition_tidy c).mono (by simp [Kind.ruleSetItems])
  · rw [ruleSetItem_rule ht hn]
    exact (rule_tidy c).mono (by simp [Kind.ruleSetItems])

theorem ruleSet_tidy (c : Cursor) : (ruleSet c).value.Tidy [.ruleSet] := by
  have hselectors : Proper (.separated [.selectorWithNavigationExpression])
      (Draft.list (separated .selector (fun c => partStarts.contains c.kind)
        navigatedSelector c).value) :=
    separated_proper (fun _ h => (navigatedSelector_item h).reads)
      (fun _ => navigatedSelector_tidy) c
  exact .node List.mem_cons_self rfl
    ⟨hselectors, block_proper (fun c _ => ruleSetItem_tidy c) _, trivial⟩

theorem item_tidy (h : c.kind ≠ .eof) : (item c).value.Tidy Kind.sheetItems := by
  by_cases ht : c.kind = .triggerKeyword
  · have hx : (item c).value = (trigger c).value := by
      rw [item_trigger ht]
      rfl
    rw [hx]
    exact (trigger_tidy c).mono (by simp [Kind.sheetItems])
  by_cases ha : c.kind = .atSign
  · rw [item_storyboard ha]
    exact (storyboard_tidy c).mono (by simp [Kind.sheetItems])
  rw [item_other ht ha]
  split
  · exact (ruleSet_tidy c).mono (by simp [Kind.sheetItems])
  · exact (unexpected_tidy itemStarts h).mono (by simp [Kind.sheetItems])

theorem documentStep_tidy (c : Cursor) (d : Draft) (hd : (documentStep c).value = some d) :
    d.Tidy Kind.sheetItems := by
  rw [documentStep_apply] at hd
  split at hd
  · cases hd
  · next he =>
    cases hd
    exact item_tidy he

end Production

/-! ## Whole texts -/

open Production Draft

/-- All nodes of a parse have the contents that their slots ask for. -/
theorem tight_parse (text : Text) : (parse text).tree.root.element.Everywhere Tight := by
  have hroot : (parse text).tree.root.element
      = (composite .document (draftOf (Lexemes.scan text)).value).element := rfl
  have hslots : Propers .document 0
      [Draft.list (itemsOf text).value, some (endOf text)] :=
    ⟨proper_items (many_tidy documentStep_tidy _), proper_token _, trivial⟩
  rw [hroot, draftOf_scan]
  exact everywhere_composite hslots fun hn => absurd hn Bool.false_ne_true

/-- What a reading tells of a node: the kinds of what its slots hold. -/
def Rowed (kind : Kind) (slots : Slots Kind Token) : Prop :=
  Tight kind slots → Keeps Kind.layout Kind.contents kind slots

theorem takes_element {rule : SlotRule} {slot : Option Draft} (h : rule.Allows slot) :
    rule.Takes (slot.map element) := by
  cases slot with
  | none => exact h
  | some d =>
    refine ⟨?_, ?_⟩
    · rw [kind_element]
      exact h.1
    · rw [isMissing_element]
      exact h.2

theorem rowed_of_conforms {kind : Kind} {slots : List (Option Draft)} (hk : kind.isComposite)
    (hl : kind.isLoose = false) (hs : Conforms kind slots) :
    Rowed kind ((Slots.ofList slots).map id Piece.token) := by
  intro h
  refine ⟨hk, fun _ _ => ?_, h.contents, h.owner, ?_, ?_⟩
  · rw [toList_slots, List.forall₂_map_right_iff]
    exact hs.imp fun _ _ => takes_element
  · rintro rfl
    cases hl
  · rintro rfl
    cases hl

theorem rowed_list {items : List Draft} (hn : items ≠ []) :
    Rowed .list ((Slots.ofList (items.map some)).map id Piece.token) := by
  intro h
  refine ⟨rfl, fun hk => absurd rfl hk, h.contents, h.owner, fun _ => ?_, nofun⟩
  rw [toList_slots]
  simpa using hn

theorem rowed_error (l : Lexeme) (more : List Lexeme) :
    Rowed .error ((Slots.ofList ((l :: more).map fun l => some (Draft.single l.kind l))).map id
      Piece.token) := by
  intro h
  refine ⟨rfl, fun _ hk => absurd rfl hk, h.contents, h.owner, nofun, fun _ => ?_⟩
  rw [toList_slots, List.map_map]
  refine ⟨by simp, fun s hs => ?_⟩
  obtain ⟨l, -, rfl⟩ := List.mem_map.mp hs
  exact ⟨_, rfl, rfl⟩

theorem everywhere_keeps (text : Text) :
    (parse text).tree.root.element.Everywhere (Keeps Kind.layout Kind.contents) := by
  have hrowed : (parse text).tree.root.element.Everywhere Rowed :=
    everywhere_of_reading (fun _ _ => rowed_of_conforms) (fun _ => rowed_list) rowed_error text
  have hboth := hrowed.and (tight_parse text)
  exact hboth.mono fun _ _ h => h.1 h.2

/-- Every node of every parse keeps to the tables, whatever the text, and every token has a kind of
token. -/
theorem keeps_parse (text : Text) :
    (parse text).tree.root.element.Everywhere (Keeps Kind.layout Kind.contents) ∧
      ∀ t ∈ (parse text).tree.root.element.tokens, t.kind.isToken :=
  ⟨everywhere_keeps text, fun _ => isToken_of_mem_tokens⟩

/-! ## Rows as documented -/

namespace Kind

/-- Rows in which a slot that may stay empty holds no missing token. -/
def strictLayout : Kind → List SlotRule
  | .propertyName => [.maybe .identifier, .maybe .period, .one .identifier]
  | .eventName => [.maybe .identifier, .maybe .period, .one .identifier]
  | kind => kind.layout

/-- Contents in which the arguments of an event are the two that are known. -/
def strictContents : Kind → Nat → Contents
  | .eventTriggerArgumentList, 1 => .separated [.handledKeyword, .setHandledKeyword]
  | kind, slot => kind.contents slot

end Kind

/-- Some node of the parse of a text does not keep to the strict tables. -/
def BreaksStrict (text : Text) : Prop :=
  ¬(parse text).tree.root.element.Everywhere (Keeps Kind.strictLayout Kind.strictContents)

/-- The stricter tables are not kept to: the owner in front of `.b` is missing in `a|.b`, and an
argument of an event that is not known stays in its list. -/
theorem strict_rows_broken :
    BreaksStrict "a|.b".toList ∧ BreaksStrict "a{trigger event b(c){}}".toList := by
  constructor
  · intro h
    have hat : ((parse "a|.b".toList).tree.at? [0, 0, 0, 0, 1, 1]).map
        (fun p => (p.isNode, p.kind, p.element.slots.toList.map (Option.map Tree.isMissing)))
        = some (true, .propertyName, [some true, some false, some false]) := by decide +kernel
    obtain ⟨p, hp, hview⟩ := Option.map_eq_some_iff.mp hat
    obtain ⟨hnode, hkind, hslots⟩ : p.isNode = true ∧ p.kind = .propertyName ∧
        p.element.slots.toList.map (Option.map Tree.isMissing)
          = [some true, some false, some false] := by simpa using hview
    have hrow := (SyntaxTree.keeps_at h hp hnode).row (by simp [hkind]) (by simp [hkind])
    rw [hkind] at hrow
    obtain ⟨owner, rest, hlist, howner, -⟩ := List.map_eq_cons_iff.mp hslots
    obtain ⟨e, rfl, hmissing⟩ := Option.map_eq_some_iff.mp howner
    rw [hlist] at hrow
    cases hrow with
    | cons hfirst _ => cases hfirst.2 hmissing
  · intro h
    have hat : ((parse "a{trigger event b(c){}}".toList).tree.at? [0, 0, 1, 1, 0, 3]).map
        (fun p => (p.isNode, p.kind, p.element.slots.toList.map (Option.map fun e =>
          e.slots.toList.map (Option.map Tree.kind))))
        = some (true, .eventTriggerArgumentList, [some [], some [some .identifier], some []]) := by
      decide +kernel
    obtain ⟨p, hp, hview⟩ := Option.map_eq_some_iff.mp hat
    obtain ⟨hnode, hkind, hslots⟩ : p.isNode = true ∧ p.kind = .eventTriggerArgumentList ∧
        p.element.slots.toList.map (Option.map fun e => e.slots.toList.map (Option.map Tree.kind))
          = [some [], some [some .identifier], some []] := by simpa using hview
    have hsecond := congrArg (fun l => l[1]?) hslots
    rw [List.getElem?_map, List.getElem?_cons_succ, List.getElem?_cons_zero,
      Option.map_eq_some_iff] at hsecond
    obtain ⟨slot, hslot, hmap⟩ := hsecond
    obtain ⟨list, rfl, hitems⟩ := Option.map_eq_some_iff.mp hmap
    have hcontent := (SyntaxTree.keeps_at h hp hnode).contents 1 list hslot
    rw [hkind] at hcontent
    obtain ⟨item, rest, hlist, hitem, -⟩ := List.map_eq_cons_iff.mp hitems
    obtain ⟨e, rfl, he⟩ := Option.map_eq_some_iff.mp hitem
    have halternate : Alternate [.handledKeyword, .setHandledKeyword] (some e :: rest) :=
      hlist ▸ hcontent
    have hmem : e.kind ∈ [Kind.handledKeyword, .setHandledKeyword] := by
      cases halternate with
      | last he | trailing he | next he => exact he.1
    simp [he] at hmem

end Stylesheet
