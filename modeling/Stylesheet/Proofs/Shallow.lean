import Stylesheet.Proofs.Errors

/-!
# Trees are shallow

However deep braces and parentheses nest in a text, its tree does not grow: a group that fits nowhere
is one error, and what a value has between its braces is one token. So a node can be no higher than
its kind allows, and `Kind.rank` is the table of this. That the table is sound is read off the rows
and contents of nodes: what stands in a slot ranks lower than the node that has the slot.

So a recursion over a tree needs room for few calls only. `Descent.runWithin` is such a recursion with
a limit to the calls that are open at a time, and fifteen are enough for it.

Results:
* `Kind.ranks_layout`: what stands in a slot ranks below its node.
* `height_le_rank`: no element is higher than its kind allows.
* `Descent.runWithin_eq`: a recursion over an element that is not too high stays within its limit.
* `parse_shallow`: the paths of a tree are short, and so are the calls that walk or make it.
-/
namespace Stylesheet

/-! ## Heights -/

variable {β α γ δ : Type}

mutual

/-- How many steps lead down from an element to what is lowest in it. -/
def Tree.height : Tree β α → Nat
  | .token _ => 0
  | .node _ slots => slots.height

def Slots.height : Slots β α → Nat
  | .nil => 0
  | .empty rest => rest.height
  | .filled t rest => max (t.height + 1) rest.height

end

theorem Tree.height_eq (t : Tree Kind Token) : t.height = t.slots.height := by
  cases t <;> rfl

theorem Slots.height_le {s : Slots β α} {n : Nat} (h : ∀ t, some t ∈ s.toList → t.height < n) :
    s.height ≤ n := by
  match s with
  | .nil => exact Nat.zero_le n
  | .empty rest => exact height_le (s := rest) fun t ht => h t (List.mem_cons_of_mem _ ht)
  | .filled e rest =>
    exact Nat.max_le.mpr ⟨h e List.mem_cons_self,
      height_le (s := rest) fun t ht => h t (List.mem_cons_of_mem _ ht)⟩

theorem Slots.height_lt {s : Slots β α} {t : Tree β α} (h : some t ∈ s.toList) :
    t.height < s.height := by
  match s with
  | .nil => cases h
  | .empty rest =>
    rw [toList, List.mem_cons] at h
    exact height_lt (s := rest) (h.resolve_left (by simp))
  | .filled e rest =>
    rw [toList, List.mem_cons] at h
    rw [height]
    rcases h with h | h
    · cases h
      exact Nat.le_max_left ..
    · exact Nat.lt_of_lt_of_le (height_lt h) (Nat.le_max_right ..)

mutual

theorem Tree.height_map (f : β → γ) (g : α → δ) (t : Tree β α) : (t.map f g).height = t.height := by
  match t with
  | .token _ => rfl
  | .node _ slots => exact Slots.height_map f g slots

theorem Slots.height_map (f : β → γ) (g : α → δ) (s : Slots β α) :
    (s.map f g).height = s.height := by
  match s with
  | .nil => rfl
  | .empty rest => exact Slots.height_map f g rest
  | .filled t rest => simp [Slots.map, Slots.height, Tree.height_map f g t, Slots.height_map f g rest]

end

theorem Tree.height_lt {t e : Tree Kind Token} (h : some t ∈ e.slots.toList) :
    t.height < e.height := e.height_eq ▸ Slots.height_lt h

/-- Each slot on a path leads one step down. -/
theorem SyntaxTree.length_add_height_le {tree : SyntaxTree} {path : List Nat} {p : Place}
    (h : tree.at? path = some p) : path.length + p.element.height ≤ tree.root.element.height := by
  induction path using List.reverseRecOn generalizing p with
  | nil =>
    cases h
    exact Nat.le_of_eq (Nat.zero_add _)
  | append_singleton path i ih =>
    rw [at?_concat, Option.bind_eq_some_iff] at h
    obtain ⟨q, hq, hchild⟩ := h
    have hbelow := ih hq
    have hlt := Tree.height_lt (List.mem_of_getElem? (Place.getElem?_toList hchild))
    rw [List.length_append, List.length_singleton]
    omega

/-! ## Ranks -/

namespace Kind

/-- How high an element of a kind is at most. A list or a block is as high as what stands in it. -/
def rank : Kind → Nat
  | .document => 15
  | .ruleSet => 13
  | .storyboard => 11
  | .propertyTrigger | .eventTrigger => 10
  | .storyboardTarget => 8
  | .playStoryboardTriggerAction | .setTriggerAction => 7
  | .selectorWithParentheses | .selectorWithNavigationExpression => 6
  | .selector | .animation => 5
  | .selectorPart | .transition => 3
  | .rule | .navigationExpression | .propertyTriggerEvaluation | .eventTriggerArgumentList
  | .playSfxTriggerAction | .transitionArgumentList | .animationKeyframe => 2
  | .selectorSubPart | .pseudoClass | .navigationExpressionIndexer | .propertyName | .eventName
  | .propertyValue | .propertyValueWithBraces | .error => 1
  | _ => 0

/-- Whether each of several kinds ranks below `bound`, with `more` steps above it. -/
def allBelow (bound more : Nat) (kinds : List Kind) : Bool :=
  decide (more < bound) && kinds.all fun kind =>
    !kind.isTransparent && decide (kind.rank + more < bound)

/-- Whether an element of a kind ranks below `bound` in a slot, by what the slot asks for. -/
def ranksBelow (contents : Contents) (bound : Nat) : Kind → Bool
  | .list => contents.listKinds?.any (allBelow bound 1)
  | .block => contents.bodyKinds?.any (allBelow bound 2)
  | kind => decide (kind.rank < bound)

theorem ranksBelow_of_opaque {contents : Contents} {bound : Nat} {kind : Kind}
    (h : ¬ kind.isTransparent) : kind.ranksBelow contents bound = decide (kind.rank < bound) := by
  revert h
  cases kind <;> first | exact fun _ => rfl | exact fun h => absurd rfl h

/-- What stands in the slots of a node ranks below the node. -/
theorem ranks_layout (kind : Kind) (h : ¬ kind.isTransparent) : ∀ p ∈ kind.layout.zipIdx,
    ∀ inner ∈ p.1.kinds, inner.ranksBelow (kind.contents p.2) kind.rank = true := by
  revert h
  cases kind <;> decide

end Kind

namespace Keeps

variable {kind : Kind} {slots : Slots Kind Token} {i : Nat} {e : Element}

theorem ranksBelow (h : Keeps Kind.layout Kind.contents kind slots) (hk : ¬ kind.isTransparent)
    (he : kind ≠ .error) (hs : slots.toList[i]? = some (some e)) :
    e.kind.ranksBelow (kind.contents i) kind.rank := by
  have hl : kind ≠ .list := fun hl => hk (Kind.isTransparent_iff.mpr (.inl hl))
  obtain ⟨rule, hrule, htakes⟩ := h.takes hl he hs
  exact Kind.ranks_layout kind hk (rule, i) (List.mk_mem_zipIdx_iff_getElem?.mpr hrule) e.kind
    htakes.1

end Keeps

/-- What holds everywhere in an element holds in what stands in its slots. -/
theorem Tree.Everywhere.of_slot {P : Kind → Slots Kind Token → Prop} {e t : Element}
    (h : e.Everywhere P) (ht : some t ∈ e.slots.toList) : t.Everywhere P := by
  cases e with
  | token _ => cases ht
  | node kind slots => exact h.2.of_mem ht

/-- A block has braces around its list. -/
theorem Tree.Everywhere.block_slot {block e : Element} {i : Nat}
    (h : block.Everywhere (Keeps Kind.layout Kind.contents)) (hk : block.kind = .block)
    (hs : block.slots.toList[i]? = some (some e)) :
    (e.kind = .leftBrace ∨ e.kind = .rightBrace) ∨ i = 1 ∧ e.kind = .list := by
  cases block with
  | token _ => simp [Tree.slots, Slots.toList] at hs
  | node kind slots =>
    cases hk
    obtain ⟨rule, hrule, htakes⟩ := h.1.takes (by decide) (by decide) hs
    have hrules : ∀ p ∈ Kind.block.layout.zipIdx, ∀ k ∈ p.1.kinds,
        (k = .leftBrace ∨ k = .rightBrace) ∨ p.2 = 1 ∧ k = .list := by decide
    exact hrules (rule, i) (List.mk_mem_zipIdx_iff_getElem?.mpr hrule) e.kind htakes.1

/-- What stands in a list is lower than the list may be. -/
theorem height_add_le {list : Element} {kinds : List Kind} {bound more : Nat}
    (hb : Kind.allBelow bound more kinds)
    (hkinds : ∀ x, some x ∈ list.slots.toList → x.kind ∈ kinds)
    (hlow : ∀ x, some x ∈ list.slots.toList → ¬ x.kind.isTransparent → x.height ≤ x.kind.rank) :
    list.height + more ≤ bound := by
  obtain ⟨hmore, hall⟩ := (Bool.and_eq_true _ _).mp hb
  have hmore := of_decide_eq_true hmore
  have hitems : list.slots.height ≤ bound - more := Slots.height_le fun x hx => by
    have hrank := List.all_eq_true.mp hall x.kind (hkinds x hx)
    simp only [Bool.and_eq_true, Bool.not_eq_true', decide_eq_true_iff] at hrank
    have := hlow x hx (by simp [hrank.1])
    omega
  rw [Tree.height_eq]
  omega

section Low

variable {child : Element} {contents : Contents} {bound : Nat}

/-- A list is low where its items are. -/
theorem height_lt_of_list (hc : contents.Of child)
    (hr : contents.listKinds?.any (Kind.allBelow bound 1))
    (hlow : ∀ x, some x ∈ child.slots.toList → ¬ x.kind.isTransparent → x.height ≤ x.kind.rank) :
    child.height < bound := by
  obtain ⟨kinds, hkinds, hbelow⟩ := (Option.any_eq_true _ _).mp hr
  exact height_add_le hbelow (fun x hx => hc.kind_mem hkinds hx) hlow

/-- A block is low where the items in its list are. -/
theorem height_lt_of_block (hc : contents.Of child)
    (hr : contents.bodyKinds?.any (Kind.allBelow bound 2)) (hk : child.kind = .block)
    (hkeeps : child.Everywhere (Keeps Kind.layout Kind.contents))
    (hlow : ∀ x, some x ∈ child.slots.toList → ¬ x.kind.isTransparent → x.height ≤ x.kind.rank)
    (hitems : ∀ list, some list ∈ child.slots.toList → ∀ x, some x ∈ list.slots.toList →
      ¬ x.kind.isTransparent → x.height ≤ x.kind.rank) : child.height < bound := by
  obtain ⟨kinds, hkinds, hbelow⟩ := (Option.any_eq_true _ _).mp hr
  have hbound : 2 < bound := of_decide_eq_true ((Bool.and_eq_true _ _).mp hbelow).1
  have hslots : child.slots.height ≤ bound - 1 := Slots.height_le fun x hx => by
    obtain ⟨j, hj⟩ := List.getElem?_of_mem hx
    rcases hkeeps.block_slot hk hj with hbrace | ⟨rfl, hlist⟩
    · have hbrace : ¬ x.kind.isTransparent ∧ x.kind.rank = 0 := by
        rcases hbrace with hbrace | hbrace <;> rw [hbrace] <;> decide
      have := hlow x hx hbrace.1
      omega
    · have := height_add_le hbelow (fun y hy => hc.body_kind_mem hkinds hj hy) (hitems x hx)
      omega
  rw [Tree.height_eq]
  omega

end Low

/-- No element is higher than its kind allows. -/
theorem height_le_rank {e : Element} (h : e.Everywhere (Keeps Kind.layout Kind.contents))
    (hk : ¬ e.kind.isTransparent) : e.height ≤ e.kind.rank := by
  -- By induction on the height: what stands in lists and blocks is more than one step down.
  induction hn : e.height using Nat.strong_induction_on generalizing e with
  | _ n ih =>
    subst hn
    cases e with
    | token t => exact Nat.zero_le _
    | node kind slots =>
      refine Slots.height_le fun child hchild => ?_
      by_cases he : kind = .error
      · subst he
        obtain ⟨t, ht, -⟩ := (h.1.error rfl).2 _ hchild
        cases ht
        exact Nat.zero_lt_one
      obtain ⟨i, hi⟩ := List.getElem?_of_mem hchild
      have hranks := h.1.ranksBelow hk he hi
      have hcontents := h.1.contents i child hi
      have hall := h.2.of_mem hchild
      have hlt : child.height < slots.height := Slots.height_lt hchild
      have hitems {list : Element} (hl : list.Everywhere (Keeps Kind.layout Kind.contents))
          (hlt : list.height < slots.height) (x : Element) (hx : some x ∈ list.slots.toList)
          (hk : ¬ x.kind.isTransparent) : x.height ≤ x.kind.rank :=
        ih x.height ((Tree.height_lt hx).trans hlt) (hl.of_slot hx) hk rfl
      by_cases hlist : child.kind = .list
      · rw [hlist] at hranks
        exact height_lt_of_list hcontents hranks (hitems hall hlt)
      by_cases hblock : child.kind = .block
      · rw [hblock] at hranks
        exact height_lt_of_block hcontents hranks hblock hall (hitems hall hlt) fun list hl =>
          hitems (hall.of_slot hl) ((Tree.height_lt hl).trans hlt)
      · have hopaque : ¬ child.kind.isTransparent := by simp [Kind.isTransparent, hlist, hblock]
        have hle := ih child.height hlt hall hopaque rfl
        rw [Kind.ranksBelow_of_opaque hopaque, decide_eq_true_iff] at hranks
        exact Nat.lt_of_le_of_lt hle hranks

/-! ## Recursions with a limit -/

/-- A recursion over elements: what it answers for a token, and for a node from its answers for what
stands in the slots of the node. -/
structure Descent (γ : Type) where
  token : Place → Token → γ
  node : Place → γ → γ
  nothing : γ
  join : γ → γ → γ

namespace Descent

mutual

def run (d : Descent γ) (path : List Nat) (position : Nat) : Tree Kind Token → γ
  | .token t => d.token ⟨path, position, .token t⟩ t
  | .node kind slots =>
    d.node ⟨path, position, .node kind slots⟩ (d.runSlots path 0 position slots)

def runSlots (d : Descent γ) (path : List Nat) (index position : Nat) : Slots Kind Token → γ
  | .nil => d.nothing
  | .empty rest => d.runSlots path (index + 1) position rest
  | .filled e rest => d.join (d.run (path ++ [index]) position e)
      (d.runSlots path (index + 1) (position + e.fullWidth) rest)

end

mutual

/-- The same recursion where so many calls may be open at a time. It gives up where one more is
needed. -/
def runWithin (d : Descent γ) (path : List Nat) (position : Nat) :
    Nat → Tree Kind Token → Option γ
  | 0, _ => none
  | _ + 1, .token t => some (d.token ⟨path, position, .token t⟩ t)
  | calls + 1, .node kind slots =>
    (d.slotsWithin path 0 position calls slots).map (d.node ⟨path, position, .node kind slots⟩)

def slotsWithin (d : Descent γ) (path : List Nat) (index position calls : Nat) :
    Slots Kind Token → Option γ
  | .nil => some d.nothing
  | .empty rest => d.slotsWithin path (index + 1) position calls rest
  | .filled e rest => do
    let first ← d.runWithin (path ++ [index]) position calls e
    let more ← d.slotsWithin path (index + 1) (position + e.fullWidth) calls rest
    return d.join first more

end

mutual

/-- A recursion stays within its limit where the element is not too high. -/
theorem runWithin_eq (d : Descent γ) (path : List Nat) (position : Nat) {calls : Nat}
    {e : Tree Kind Token} (h : e.height < calls) :
    d.runWithin path position calls e = some (d.run path position e) := by
  match calls, e with
  | _ + 1, .token _ => rfl
  | calls + 1, .node kind slots =>
    rw [runWithin, slotsWithin_eq d path 0 position (Nat.le_of_lt_succ h), run]
    rfl

theorem slotsWithin_eq (d : Descent γ) (path : List Nat) (index position : Nat) {calls : Nat}
    {s : Slots Kind Token} (h : s.height ≤ calls) :
    d.slotsWithin path index position calls s = some (d.runSlots path index position s) := by
  match s with
  | .nil => rfl
  | .empty rest => exact slotsWithin_eq d path (index + 1) position (s := rest) h
  | .filled e rest =>
    obtain ⟨he, hrest⟩ := Nat.max_le.mp h
    rw [slotsWithin, runWithin_eq d (path ++ [index]) position he,
      slotsWithin_eq d path (index + 1) (position + e.fullWidth) hrest, runSlots]
    rfl

end

def visits : Descent (List Visit) :=
  ⟨Place.tokenVisits, fun p below => .element p :: below, [], (· ++ ·)⟩

def first (test : Token → Bool) : Descent (Option Place) :=
  ⟨fun p t => if test t then some p else none, fun _ below => below, none, Option.or⟩

def last (test : Token → Bool) : Descent (Option Place) :=
  ⟨fun p t => if test t then some p else none, fun _ below => below, none, fun a b => b.or a⟩

mutual

theorem run_visits (path : List Nat) (position : Nat) (e : Tree Kind Token) :
    visits.run path position e = e.visits path position := by
  match e with
  | .token _ => rfl
  | .node kind slots => rw [run, runSlots_visits path 0 position slots]; rfl

theorem runSlots_visits (path : List Nat) (index position : Nat) (s : Slots Kind Token) :
    visits.runSlots path index position s = s.visits path index position := by
  match s with
  | .nil => rfl
  | .empty rest => exact runSlots_visits path (index + 1) position rest
  | .filled e rest =>
    rw [runSlots, run_visits (path ++ [index]) position e,
      runSlots_visits path (index + 1) (position + e.fullWidth) rest]
    rfl

end

mutual

theorem run_first (test : Token → Bool) (path : List Nat) (position : Nat) (e : Tree Kind Token) :
    (first test).run path position e = e.first? test path position := by
  match e with
  | .token _ => rfl
  | .node kind slots => exact runSlots_first test path 0 position slots

theorem runSlots_first (test : Token → Bool) (path : List Nat) (index position : Nat)
    (s : Slots Kind Token) :
    (first test).runSlots path index position s = s.first? test path index position := by
  match s with
  | .nil => rfl
  | .empty rest => exact runSlots_first test path (index + 1) position rest
  | .filled e rest =>
    rw [runSlots, run_first test (path ++ [index]) position e,
      runSlots_first test path (index + 1) (position + e.fullWidth) rest, Slots.first?]
    cases e.first? test (path ++ [index]) position <;> rfl

end

mutual

theorem run_last (test : Token → Bool) (path : List Nat) (position : Nat) (e : Tree Kind Token) :
    (last test).run path position e = e.last? test path position := by
  match e with
  | .token _ => rfl
  | .node kind slots => exact runSlots_last test path 0 position slots

theorem runSlots_last (test : Token → Bool) (path : List Nat) (index position : Nat)
    (s : Slots Kind Token) :
    (last test).runSlots path index position s = s.last? test path index position := by
  match s with
  | .nil => rfl
  | .empty rest => exact runSlots_last test path (index + 1) position rest
  | .filled e rest =>
    rw [runSlots, run_last test (path ++ [index]) position e,
      runSlots_last test path (index + 1) (position + e.fullWidth) rest, Slots.last?]
    cases rest.last? test path (index + 1) (position + e.fullWidth) <;> rfl

end

end Descent

/-! ## Productions with a limit -/

mutual

/-- Whether a draft is made, from a cursor on, with so many productions under way at a time: the one
that makes a node calls those that make what stands in its slots. -/
def Tree.MadeWithin (c : Cursor) : Nat → Tree Kind Piece → Prop
  | _, .token _ => True
  | 0, .node _ _ => False
  | calls + 1, .node kind slots => Made c kind slots ∧ slots.MadeWithin c calls

def Slots.MadeWithin (c : Cursor) (calls : Nat) : Slots Kind Piece → Prop
  | .nil => True
  | .empty rest => rest.MadeWithin c calls
  | .filled d rest => d.MadeWithin c calls
      ∧ rest.MadeWithin (c.advance (d.tokens.flatMap Piece.lexemes).length) calls

end

mutual

theorem Tree.EverywhereFrom.madeWithin {c : Cursor} {calls : Nat} {d : Tree Kind Piece}
    (h : d.EverywhereFrom Made c) (hd : d.height < calls) : d.MadeWithin c calls := by
  match d with
  | .token _ => simp [Tree.MadeWithin]
  | .node kind slots =>
    obtain ⟨calls, rfl⟩ := Nat.exists_eq_add_one_of_ne_zero (Nat.ne_zero_of_lt hd)
    exact ⟨h.1, Slots.EverywhereFrom.madeWithin h.2 (Nat.le_of_lt_succ hd)⟩

/-- What is made where it stands, and is not too high, is made within a limit. -/
theorem Slots.EverywhereFrom.madeWithin {c : Cursor} {calls : Nat} {s : Slots Kind Piece}
    (h : s.EverywhereFrom Made c) (hs : s.height ≤ calls) : s.MadeWithin c calls := by
  match s with
  | .nil => trivial
  | .empty rest => exact Slots.EverywhereFrom.madeWithin (s := rest) h hs
  | .filled d rest =>
    obtain ⟨hd, hrest⟩ := Nat.max_le.mp hs
    exact ⟨Tree.EverywhereFrom.madeWithin h.1 hd, Slots.EverywhereFrom.madeWithin h.2 hrest⟩

end

/-! ## Whole texts -/

/-- The tree of a text is shallow, so few calls are open at a time when it is walked or made. -/
structure IsShallow (text : Text) : Prop where
  paths : ∀ path p, (parse text).tree.at? path = some p → path.length ≤ 15
  visits : ∀ p, (parse text).tree.Has p →
    Descent.visits.runWithin p.path p.position 16 p.element = some p.visits
  first : ∀ p, (parse text).tree.Has p → ∀ test,
    (Descent.first test).runWithin p.path p.position 16 p.element = some (p.first? test)
  last : ∀ p, (parse text).tree.Has p → ∀ test,
    (Descent.last test).runWithin p.path p.position 16 p.element = some (p.last? test)
  calls : (Slots.ofList (draftOf (Lexemes.scan text)).value).MadeWithin
    (.ofLexemes (Lexemes.scan text)) 15

theorem height_parse (text : Text) : (parse text).tree.root.element.height ≤ 15 :=
  height_le_rank (everywhere_keeps text) (show ¬ Kind.document.isTransparent by decide)

/-- Whatever a text nests, its tree is shallow. -/
theorem parse_shallow (text : Text) : IsShallow text := by
  have hheight {p : Place} (hp : (parse text).tree.Has p) : p.element.height < 16 := by
    have := SyntaxTree.length_add_height_le hp
    have := height_parse text
    omega
  refine ⟨fun path p hp => ?_, fun p hp => ?_, fun p hp test => ?_, fun p hp test => ?_, ?_⟩
  · have := SyntaxTree.length_add_height_le hp
    have := height_parse text
    omega
  · rw [Descent.runWithin_eq _ _ _ (hheight hp), Descent.run_visits]
    rfl
  · rw [Descent.runWithin_eq _ _ _ (hheight hp), Descent.run_first]
    rfl
  · rw [Descent.runWithin_eq _ _ _ (hheight hp), Descent.run_last]
    rfl
  · refine (grown_draftOf (Lexemes.scan text)).madeWithin ?_
    rw [← Slots.height_map id Piece.token]
    exact height_parse text

/-- A part of a selector in an action of a trigger takes all fifteen steps. -/
example : ((parse "a\x7btrigger event b\x7bset c(d)e\x7d\x7d".toList).tree.at?
    [0, 0, 1, 1, 0, 5, 1, 0, 2, 1, 0, 0, 0, 0, 1]).isSome := by decide +kernel

end Stylesheet
