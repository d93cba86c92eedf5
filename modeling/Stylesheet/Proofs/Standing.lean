import Mathlib.Data.List.Chain
import Stylesheet.Proofs.Braces.Sheets
import Stylesheet.Proofs.Origins.Productions

/-!
# Nodes where they stand in a text

The marks of a text say which of its lexemes each token is made of. So a property of a node can
speak of the lexemes of the text by their indices: of those below the node, of the one behind it, of
what touches what. Every node is made by the production of its kind at a cursor, and that cursor
stands behind as many lexemes as the node does.

Results:
* `Slots.EverywhereAt`: a property of all nodes and of the number of lexemes in front of them.
* `Draft.toList_marked`, `Laid.node`: the marks of a row of slots, and those of a node.
* `Production.many_each`, `Production.many_chain`, `Production.block_each`: the items of a loop and
  of a block, each where it stands.
* `stands_of_made`, `stands_of_makes`: what is so wherever a production makes a node is so in a text.
-/
namespace Stylesheet

/-! ## Cursors in a text -/

namespace Lexemes

/-- The cursor behind the first lexemes of a text, as many as the index says. -/
def cursor (ls : Lexemes) (index : Nat) : Cursor := (Cursor.ofLexemes ls).advance index

variable {ls : Lexemes}

theorem cursor_zero (ls : Lexemes) : ls.cursor 0 = .ofLexemes ls := Cursor.advance_zero _

@[simp] theorem advance_cursor (ls : Lexemes) (index count : Nat) :
    (ls.cursor index).advance count = ls.cursor (index + count) :=
  Cursor.advance_advance ..

/-- Behind some lexemes stands the cursor that counts them. -/
theorem eq_cursor {index : Nat} {lexemes : List Lexeme} {c : Cursor}
    (h : (ls.cursor index).Passes lexemes c) : c = ls.cursor (index + lexemes.length) := by
  rw [h.eq_advance, advance_cursor]

/-- The final lexeme is of the kind that stands for what is past the end. -/
theorem kindAt_all (h : ls.final.kind = .eof) (i : Nat) :
    Lexeme.kindAt ls.all i = Lexeme.kindAt ls.body i := by
  unfold Lexeme.kindAt all
  rcases Nat.lt_trichotomy i ls.body.length with hlt | rfl | hgt
  · rw [List.getElem?_append_left hlt]
  · rw [List.getElem?_append_right (Nat.le_refl _), List.getElem?_eq_none (Nat.le_refl _)]
    simpa using h
  · rw [List.getElem?_eq_none (by rw [List.length_append, List.length_singleton]; omega),
      List.getElem?_eq_none (Nat.le_of_lt hgt)]

theorem kindAt_cursor (h : ls.final.kind = .eof) (index n : Nat) :
    (ls.cursor index).kindAt n = Lexeme.kindAt ls.all (index + n) := by
  rw [kindAt_all h, Lexeme.kindAt, ← List.getElem?_drop]
  rfl

theorem kind_cursor (h : ls.final.kind = .eof) (index : Nat) :
    (ls.cursor index).kind = Lexeme.kindAt ls.all index :=
  kindAt_cursor h index 0

/-- Where a text is not over the lexeme at the index is next. -/
theorem drop_cases (h : ls.final.kind = .eof) (i : Nat) :
    (ls.body.length ≤ i ∧ Lexeme.kindAt ls.all i = .eof) ∨
      ∃ l, i < ls.body.length ∧ ls.body.drop i = l :: ls.body.drop (i + 1) ∧
        l.kind = Lexeme.kindAt ls.all i := by
  rw [kindAt_all h, Lexeme.kindAt]
  rcases Nat.lt_or_ge i ls.body.length with hlt | hle
  · refine .inr ⟨ls.body[i], hlt, List.drop_eq_getElem_cons hlt, ?_⟩
    rw [List.getElem?_eq_getElem hlt]
    rfl
  · refine .inl ⟨hle, ?_⟩
    rw [List.getElem?_eq_none hle]
    rfl

/-- What is not the end stands in front of it. -/
theorem lt_length_of_kindAt (h : ls.final.kind = .eof) {i : Nat}
    (hk : Lexeme.kindAt ls.all i ≠ .eof) : i < ls.body.length := by
  rcases drop_cases h i with ⟨-, hend⟩ | ⟨_, hlt, -⟩
  · exact absurd hend hk
  · exact hlt

theorem touching_cursor (h : ls.final.kind = .eof) {index : Nat}
    (hk : Lexeme.kindAt ls.all index ≠ .eof) :
    (ls.cursor index).touching = Lexeme.touchesAt ls.all index :=
  touching_advance ls (Nat.le_of_lt (lt_length_of_kindAt h hk))

/-- What a cursor sees where it stands, touching the lexeme behind it, the lexeme at its index is. -/
theorem touching_and_cursor (h : ls.final.kind = .eof) (index : Nat) {p : Kind → Bool}
    (hp : p .eof = false) :
    ((ls.cursor index).touching && p (ls.cursor index).kind)
      = (Lexeme.touchesAt ls.all index && p (Lexeme.kindAt ls.all index)) := by
  rw [kind_cursor h]
  by_cases hk : Lexeme.kindAt ls.all index = .eof
  · rw [hk, hp, Bool.and_false, Bool.and_false]
  · rw [touching_cursor h hk]

end Lexemes

/-! ## Properties of nodes and of where they stand -/

/-- The kind of the lexeme behind a node that starts at an index, told by the node's slots. -/
def Lexemes.kindBehind (ls : Lexemes) (index : Nat) (slots : Slots Kind Mark) : Kind :=
  Lexeme.kindAt ls.all (index + (slots.tokens.flatMap Mark.indices).length)

/-- The number of lexemes below a tree of marks. -/
def Tree.extent (t : Tree Kind Mark) : Nat := (t.tokens.flatMap Mark.indices).length

mutual

/-- Whether each node has a property of the number of lexemes in front of it, of its kind and of its
slots, `index` lexemes being in front of the tree. -/
def Tree.EverywhereAt (P : Nat → Kind → Slots Kind Mark → Prop) (index : Nat) :
    Tree Kind Mark → Prop
  | .token _ => True
  | .node kind slots => P index kind slots ∧ slots.EverywhereAt P index

def Slots.EverywhereAt (P : Nat → Kind → Slots Kind Mark → Prop) (index : Nat) :
    Slots Kind Mark → Prop
  | .nil => True
  | .empty rest => rest.EverywhereAt P index
  | .filled t rest => t.EverywhereAt P index ∧ rest.EverywhereAt P (index + t.extent)

end

mutual

/-- What does not depend on where nodes stand. -/
theorem Tree.EverywhereAt.everywhere {P : Kind → Slots Kind Mark → Prop} {index : Nat}
    {t : Tree Kind Mark} (h : t.EverywhereAt (fun _ => P) index) : t.Everywhere P := by
  match t with
  | .token _ => trivial
  | .node kind slots => exact ⟨h.1, Slots.EverywhereAt.everywhere h.2⟩

theorem Slots.EverywhereAt.everywhere {P : Kind → Slots Kind Mark → Prop} {index : Nat}
    {s : Slots Kind Mark} (h : s.EverywhereAt (fun _ => P) index) : s.Everywhere P := by
  match s with
  | .nil => trivial
  | .empty rest => exact Slots.EverywhereAt.everywhere (s := rest) h
  | .filled t rest => exact ⟨Tree.EverywhereAt.everywhere h.1, Slots.EverywhereAt.everywhere h.2⟩

end

namespace Draft

theorem extent_marked (d : Draft) (index : Nat) :
    (d.shape.marked index).extent = d.lexemes.length := by
  rw [Tree.extent, Tree.indices_marked, List.length_range', shape, Tree.lexemeCount_shape, lexemes]

/-- The lexemes of a draft are counted off from where it stands. -/
theorem indices_marked (d : Draft) (index : Nat) :
    (d.shape.marked index).tokens.flatMap Mark.indices = List.range' index d.lexemes.length := by
  rw [Tree.indices_marked, shape, Tree.lexemeCount_shape, lexemes]

end Draft

theorem Lexemes.kindBehind_marked (ls : Lexemes) (index : Nat) (slots : Slots Kind Piece) :
    ls.kindBehind index ((slots.map id Piece.shape).marked index)
      = Lexeme.kindAt ls.all (index + (slots.tokens.flatMap Piece.lexemes).length) := by
  rw [kindBehind, Slots.indices_marked, List.length_range', Slots.lexemeCount_shape]

section Marked

variable {P : Cursor → Kind → Slots Kind Piece → Prop} {Q : Nat → Kind → Slots Kind Mark → Prop}
  {ls : Lexemes}

mutual

theorem Tree.everywhereAt_marked
    (h : ∀ index kind slots, P (ls.cursor index) kind slots →
      Q index kind ((slots.map id Piece.shape).marked index))
    (d : Tree Kind Piece) {index : Nat} (hd : d.EverywhereFrom P (ls.cursor index)) :
    ((d.map id Piece.shape).marked index).EverywhereAt Q index := by
  match d with
  | .token p => cases p <;> trivial
  | .node kind slots =>
    exact ⟨h index kind slots hd.1, Slots.everywhereAt_marked h slots hd.2⟩

/-- What holds of all nodes with the cursors in front of them holds of their marks. -/
theorem Slots.everywhereAt_marked
    (h : ∀ index kind slots, P (ls.cursor index) kind slots →
      Q index kind ((slots.map id Piece.shape).marked index))
    (s : Slots Kind Piece) {index : Nat} (hs : s.EverywhereFrom P (ls.cursor index)) :
    ((s.map id Piece.shape).marked index).EverywhereAt Q index := by
  match s with
  | .nil => trivial
  | .empty rest => exact Slots.everywhereAt_marked h rest hs
  | .filled d rest =>
    have hrest := hs.2
    rw [Lexemes.advance_cursor] at hrest
    refine ⟨Tree.everywhereAt_marked h d hs.1, ?_⟩
    show ((rest.map id Piece.shape).marked _).EverywhereAt Q (index + (Draft.shape d |>.marked index).extent)
    rw [Draft.extent_marked, Tree.lexemeCount_shape]
    exact Slots.everywhereAt_marked h rest hrest

end

end Marked

/-! ## Rows of slots -/

/-- The items of the list in a slot. Where there is no list there are none. -/
def Slots.itemsOf : Option (Tree Kind Mark) → List (Tree Kind Mark)
  | some (.node .list items) => items.toList.filterMap id
  | _ => []

/-- The items of the list in a slot of a node. -/
def Slots.itemsIn (slots : Slots Kind Mark) (slot : Nat) : List (Tree Kind Mark) :=
  itemsOf slots.toList[slot]?.join

/-- The items of the block in a slot of a node. -/
def Slots.bodyIn (slots : Slots Kind Mark) (slot : Nat) : List (Tree Kind Mark) :=
  match slots.toList[slot]?.join with
  | some (.node .block block) => block.itemsIn 1
  | _ => []

namespace Draft

/-- What a row of slots becomes, its first lexeme being the one at an index. -/
def markedRow (index : Nat) : List (Option Draft) → List (Option (Tree Kind Mark))
  | [] => []
  | slot :: rest => markedSlot index slot :: markedRow (index + (lexemesOf [slot]).length) rest

/-- So do the items of a list. -/
def markedItems (index : Nat) : List Draft → List (Tree Kind Mark)
  | [] => []
  | d :: rest => d.shape.marked index :: markedItems (index + d.lexemes.length) rest

variable {index : Nat}

theorem toList_marked (index : Nat) (slots : List (Option Draft)) :
    (((Slots.ofList slots).map id Piece.shape).marked index).toList = markedRow index slots := by
  induction slots generalizing index with
  | nil => rfl
  | cons slot rest ih =>
    cases slot with
    | none => exact congrArg (none :: ·) (ih index)
    | some d =>
      rw [markedRow, ← lexemeCount_shape, ← ih]
      rfl

theorem marked_ofList (index : Nat) (slots : List (Option Draft)) :
    ((Slots.ofList slots).map id Piece.shape).marked index = .ofList (markedRow index slots) := by
  rw [← toList_marked, Slots.ofList_toList]

theorem marked_composite (index : Nat) (kind : Kind) (slots : List (Option Draft)) :
    (composite kind slots).shape.marked index = .node kind (.ofList (markedRow index slots)) :=
  congrArg (Tree.node kind) (marked_ofList index slots)

theorem markedRow_some (index : Nat) (items : List Draft) :
    markedRow index (items.map some) = (markedItems index items).map some := by
  induction items generalizing index with
  | nil => rfl
  | cons d rest ih =>
    rw [List.map_cons, markedRow, ih, lexemesOf_some, lexemesOf_nil, List.append_nil]
    rfl

theorem length_markedRow (index : Nat) (slots : List (Option Draft)) :
    (markedRow index slots).length = slots.length := by
  induction slots generalizing index with
  | nil => rfl
  | cons slot rest ih => rw [markedRow, List.length_cons, ih, List.length_cons]

theorem markedRow_append (index : Nat) (a b : List (Option Draft)) :
    markedRow index (a ++ b)
      = markedRow index a ++ markedRow (index + (lexemesOf a).length) b := by
  induction a generalizing index with
  | nil => rfl
  | cons slot rest ih =>
    rw [List.cons_append, markedRow, ih, markedRow, List.cons_append, Nat.add_assoc,
      ← List.length_append, ← lexemesOf_append, List.singleton_append]

theorem itemsOf_markedSlot (index : Nat) (items : List Draft) :
    Slots.itemsOf (markedSlot index (list items)) = markedItems index items := by
  cases items with
  | nil => rfl
  | cons d rest =>
    show Slots.itemsOf (some ((composite .list ((d :: rest).map some)).shape.marked index)) = _
    rw [marked_composite, Slots.itemsOf, Slots.toList_ofList, markedRow_some,
      List.filterMap_map, Function.id_comp, List.filterMap_some]

/-- What stands in a slot of a row. -/
theorem getElem?_markedRow (index : Nat) (front rest : List (Option Draft)) (slot : Option Draft) :
    (markedRow index (front ++ slot :: rest))[front.length]?.join
      = markedSlot (index + (lexemesOf front).length) slot := by
  rw [markedRow_append, List.getElem?_append_right (by rw [length_markedRow]), length_markedRow,
    Nat.sub_self]
  exact Option.join_some

theorem itemsIn_markedRow (index : Nat) (front rest : List (Option Draft)) (items : List Draft) :
    (Slots.ofList (markedRow index (front ++ list items :: rest))).itemsIn front.length
      = markedItems (index + (lexemesOf front).length) items := by
  rw [Slots.itemsIn, Slots.toList_ofList, getElem?_markedRow, itemsOf_markedSlot]

theorem bodyIn_markedRow (index : Nat) (front rest : List (Option Draft)) (opening closing : Draft)
    (items : List Draft) :
    (Slots.ofList (markedRow index (front ++ some (composite .block
        [some opening, list items, some closing]) :: rest))).bodyIn front.length
      = markedItems (index + (lexemesOf front).length + opening.lexemes.length) items := by
  rw [Slots.bodyIn, Slots.toList_ofList, getElem?_markedRow, markedSlot, Option.map_some,
    marked_composite]
  show Slots.itemsIn (.ofList (markedRow _ ([some opening] ++ list items :: [some closing]))) 1 = _
  rw [show 1 = [some opening].length from rfl, itemsIn_markedRow, lexemesOf_some, lexemesOf_nil,
    List.append_nil]

end Draft

/-! ## Rows that are read -/

/-- Slots that are filled from an index on and end in front of another one, with the marks they
become. -/
structure Laid (i : Nat) (slots : List (Option Draft)) (marks : List (Option (Tree Kind Mark)))
    (j : Nat) : Prop where
  length : i + (Draft.lexemesOf slots).length = j
  marks : Draft.markedRow i slots = marks

namespace Laid

variable {i j k : Nat} {slot : Option Draft} {slots : List (Option Draft)}
  {mark : Option (Tree Kind Mark)} {marks : List (Option (Tree Kind Mark))}

theorem nil (i : Nat) : Laid i [] [] i := ⟨rfl, rfl⟩

/-- One slot more, in front of a row. -/
theorem cons (h₁ : Laid i [slot] [mark] j) (h₂ : Laid j slots marks k) :
    Laid i (slot :: slots) (mark :: marks) k := by
  constructor
  · rw [← h₂.length, ← h₁.length, ← List.singleton_append, Draft.lexemesOf_append,
      List.length_append, Nat.add_assoc]
  · rw [Draft.markedRow, h₁.length, h₂.marks]
    exact congrArg (· ++ marks) h₁.marks

/-- A slot that stays empty in front of a row. -/
theorem skip (h : Laid i slots marks j) : Laid i (none :: slots) (none :: marks) j :=
  ⟨h.length, congrArg (none :: ·) h.marks⟩

/-- The marks of a node, from those of its slots. -/
theorem node (h : Laid i slots marks j) (kind : Kind) :
    (Draft.composite kind slots).shape.marked i = .node kind (.ofList marks) := by
  rw [← h.marks]
  exact Draft.marked_composite i kind slots

/-- A node in its slot. -/
theorem only (h : Laid i slots marks j) (kind : Kind) :
    Laid i [some (.composite kind slots)] [some (.node kind (.ofList marks))] j := by
  constructor
  · rw [← h.length]
    simp
  · rw [← h.node]
    rfl

end Laid

/-- What a production fills slots with at an index of a text. -/
structure Outcome.Lays {α : Type} (o : Outcome α) (ls : Lexemes) (i : Nat)
    (slots : List (Option Draft)) (marks : List (Option (Tree Kind Mark))) (j : Nat) : Prop
    extends Laid i slots marks j where
  rest : o.rest = ls.cursor j

namespace Production

variable {ls : Lexemes} {i : Nat}

theorem takeAs_lays (hf : ls.final.kind = .eof) (kind : Kind)
    (h : Lexeme.kindAt ls.all i ≠ .eof) :
    (takeAs kind (ls.cursor i)).Lays ls i [some (takeAs kind (ls.cursor i)).value]
      [some (.token (.run kind i 0))] (i + 1) := by
  rw [← Lexemes.kind_cursor hf] at h
  obtain ⟨l, rest, hc, -⟩ := Cursor.exists_ahead h
  rw [takeAs_apply kind hc]
  exact ⟨⟨by simp, rfl⟩, Lexemes.advance_cursor ..⟩

theorem take_lays (hf : ls.final.kind = .eof) (h : Lexeme.kindAt ls.all i ≠ .eof) :
    (take (ls.cursor i)).Lays ls i [some (take (ls.cursor i)).value]
      [some (.token (.run (Lexeme.kindAt ls.all i) i 0))] (i + 1) := by
  rw [← Lexemes.kind_cursor hf]
  exact takeAs_lays hf _ h

theorem expect_lays (hf : ls.final.kind = .eof) {kind : Kind}
    (h : Lexeme.kindAt ls.all i = kind) (he : kind ≠ .eof) :
    (expect kind (ls.cursor i)).Lays ls i [some (expect kind (ls.cursor i)).value]
      [some (.token (.run kind i 0))] (i + 1) := by
  rw [expect_of_kind (by rwa [Lexemes.kind_cursor hf])]
  subst h
  exact take_lays hf he

theorem expectName_lays (hf : ls.final.kind = .eof) (h : (Lexeme.kindAt ls.all i).isName) :
    (expectName (ls.cursor i)).Lays ls i [some (expectName (ls.cursor i)).value]
      [some (.token (.run .identifier i 0))] (i + 1) := by
  rw [expectName_of_isName (by rwa [Lexemes.kind_cursor hf])]
  exact takeAs_lays hf _ (ne_eof_of_isName h)

theorem absent_lays (kind : Kind) :
    (absent kind (ls.cursor i)).Lays ls i [some (absent kind (ls.cursor i)).value]
      [some (.token (.missing kind))] i :=
  ⟨⟨rfl, rfl⟩, rfl⟩

end Production

/-! ## Names -/

/-- The slots of a name whose first lexeme is the one at index `i`, alone or with an owner, and the
index behind it. -/
inductive Lexemes.IsName (ls : Lexemes) (i : Nat) : List (Option (Tree Kind Mark)) → Nat → Prop
  | alone (h : (Lexeme.kindAt ls.all i).isName) :
      IsName ls i [none, none, some (.token (.run .identifier i 0))] (i + 1)
  | owned (h : (Lexeme.kindAt ls.all i).isName) (hp : Lexeme.kindAt ls.all (i + 1) = .period)
      (hn : (Lexeme.kindAt ls.all (i + 2)).isName) :
      IsName ls i [some (.token (.run .identifier i 0)), some (.token (.run .period (i + 1) 0)),
        some (.token (.run .identifier (i + 2) 0))] (i + 3)

namespace Production

variable {ls : Lexemes} {i : Nat}

theorem qualifiedName_lays_alone (hf : ls.final.kind = .eof) (kind : Kind)
    (h : (Lexeme.kindAt ls.all i).isName)
    (hn : ¬(Lexeme.kindAt ls.all (i + 1) = .period ∧ (Lexeme.kindAt ls.all (i + 2)).isName)) :
    (qualifiedName kind (ls.cursor i)).Lays ls i [some (qualifiedName kind (ls.cursor i)).value]
      [some (.node kind (.ofList [none, none, some (.token (.run .identifier i 0))]))] (i + 1) := by
  have hfirst := expectName_lays hf h
  have hrow := (hfirst.toLaid.cons <| .nil _).skip.skip
  rw [qualifiedName_alone kind (by
    rwa [hfirst.rest, Lexemes.kind_cursor hf, Lexemes.kindAt_cursor hf])]
  exact ⟨hrow.only kind, hfirst.rest⟩

/-- A name is read as far as it goes. -/
theorem qualifiedName_lays (hf : ls.final.kind = .eof) (kind : Kind)
    {names : List (Option (Tree Kind Mark))} {j : Nat} (h : ls.IsName i names j)
    (hp : Lexeme.kindAt ls.all j ≠ .period) :
    (qualifiedName kind (ls.cursor i)).Lays ls i [some (qualifiedName kind (ls.cursor i)).value]
      [some (.node kind (.ofList names))] j := by
  cases h with
  | alone h => exact qualifiedName_lays_alone hf kind h fun hn => hp hn.1
  | owned h hperiod hn =>
    have hfirst := expectName_lays hf h
    have hdot := take_lays hf (i := i + 1) (by simp [hperiod])
    have hname := takeAs_lays hf .identifier (i := i + 2) (ne_eof_of_isName hn)
    rw [hperiod] at hdot
    rw [← hdot.rest] at hname
    rw [← hfirst.rest] at hdot hname
    rw [qualifiedName_owned kind
      (by rwa [hfirst.rest, Lexemes.kind_cursor hf])
      (by rwa [hfirst.rest, Lexemes.kindAt_cursor hf])]
    exact ⟨(hfirst.toLaid.cons <| hdot.toLaid.cons <| hname.toLaid.cons <| .nil _).only kind,
      hname.rest⟩

end Production

/-! ## Loops -/

/-- What fills a slot ends behind its lexemes. -/
theorem Outcome.Fills.rest_eq {α : Type} {o : Outcome α} {ls : Lexemes} {index : Nat}
    {role : SlotRole} {d : Draft} (h : o.Fills (ls.cursor index) [(role, some d)]) :
    o.rest = ls.cursor (index + d.lexemes.length) := by
  rw [Lexemes.eq_cursor h.reading.passes]
  simp

namespace Production

variable {step : Production (Option Draft)} {role : SlotRole} {ls : Lexemes} {index : Nat}

/-- The first item of a loop is what its step answers where the loop starts. -/
theorem step_of_many_cons (hs : Steps step role) {c : Cursor} {d : Draft} {more : List Draft}
    (h : (many step c).value = d :: more) : (step c).value = some d := by
  cases hv : (step c).value with
  | none => rw [many_of_none hv] at h; cases h
  | some e => rw [many_of_some hv (hs.goesOn hv).2.2] at h; cases h; rfl

/-- Each item of a loop is what a step made where the item stands. -/
theorem many_each {Q : Tree Kind Mark → Prop} (hs : Steps step role)
    (h : ∀ i d, (step (ls.cursor i)).value = some d → Q (d.shape.marked i)) (index : Nat) :
    ∀ t ∈ Draft.markedItems index (many step (ls.cursor index)).value, Q t := by
  generalize hc : ls.cursor index = c
  fun_induction many step c generalizing index with
  | case1 c first hn => exact fun t ht => absurd ht List.not_mem_nil
  | case2 c first d hd hlt tail ih =>
    subst hc
    exact List.forall_mem_cons.mpr ⟨h index d hd, ih _ (hs.goesOn hd).1.rest_eq.symm⟩
  | case3 c first d hd hlt => exact absurd (hs.goesOn hd).2.2 hlt

/-- Items of a loop that follow one another are what two steps made in a row. -/
theorem many_chain {R : Tree Kind Mark → Tree Kind Mark → Prop} (hs : Steps step role)
    (h : ∀ i d e, (step (ls.cursor i)).value = some d →
      (step (ls.cursor (i + d.lexemes.length))).value = some e →
      R (d.shape.marked i) (e.shape.marked (i + d.lexemes.length))) (index : Nat) :
    (Draft.markedItems index (many step (ls.cursor index)).value).IsChain R := by
  generalize hc : ls.cursor index = c
  fun_induction many step c generalizing index with
  | case1 c first hn => exact .nil
  | case2 c first d hd hlt tail ih =>
    subst hc
    have hrest := (hs.goesOn hd).1.rest_eq
    refine List.isChain_cons.mpr ⟨?_, ih _ hrest.symm⟩
    intro t ht
    cases hv : tail.value with
    | nil => rw [hv] at ht; cases ht
    | cons e more =>
      rw [hv] at ht
      cases ht
      refine h index d e hd ?_
      rw [← hrest]
      exact step_of_many_cons hs hv
  | case3 c first d hd hlt => exact absurd (hs.goesOn hd).2.2 hlt

/-- A step of the loop of a block makes an item or reads what fits nowhere. -/
theorem blockStep_cases {starts : KindSet} {item : Production Draft} {c : Cursor} {d : Draft}
    (h : (blockStep starts item c).value = some d) :
    starts.contains c.kind ∧ d = (item c).value ∨
      (¬starts.contains c.kind ∧ c.kind ≠ .rightBrace ∧ c.kind ≠ .eof) ∧
        d = (unexpected starts c).value := by
  rw [blockStep_apply] at h
  split at h
  · cases h
  · next hend =>
    cases h
    obtain ⟨hbrace, heof⟩ := not_or.mp hend
    unfold blockItem
    split
    · next hs => exact .inl ⟨hs, rfl⟩
    · next hs => exact .inr ⟨⟨hs, hbrace, heof⟩, rfl⟩

/-- Each item of a block is what a step of its loop made where the item stands. -/
theorem block_each {starts : KindSet} {item : Production Draft} {Q : Tree Kind Mark → Prop}
    (hf : ls.final.kind = .eof) (hitem : ∀ c, starts.contains c.kind → Item item .plain c)
    (h : ∀ i d, (blockStep starts item (ls.cursor i)).value = some d → Q (d.shape.marked i))
    (index : Nat) (front rest : List (Option Draft)) {c : Cursor}
    (hc : c = ls.cursor (index + (Draft.lexemesOf front).length)) :
    ∀ t ∈ (Slots.ofList (Draft.markedRow index
      (front ++ some (block starts item c).value :: rest))).bodyIn front.length, Q t := by
  rw [block_apply]
  split
  · next hk =>
    subst hc
    rw [Lexemes.kind_cursor hf] at hk
    have htake := take_lays hf (i := index + (Draft.lexemesOf front).length) (by simp [hk])
    have hlength := htake.length
    rw [Draft.lexemesOf_some, Draft.lexemesOf_nil, List.append_nil] at hlength
    have heach := many_each (blockStep_steps hitem) h
      (index + (Draft.lexemesOf front).length + 1)
    rw [← htake.rest, ← hlength] at heach
    exact fun t ht => heach t ((Draft.bodyIn_markedRow ..).subst ht)
  · intro t ht
    have hnone := Draft.bodyIn_markedRow index front rest (Draft.missing .leftBrace)
      (Draft.missing .rightBrace) []
    exact absurd (hnone.subst ht) List.not_mem_nil

end Production

/-! ## Whole texts -/

/-- The tree of a text is told by its marks. -/
structure IsMarked (text : Text) : Prop where
  /-- The marks are the lexemes of the text, from the first to the last. -/
  indices : (marksOf text).tokens.flatMap Mark.indices
    = List.range (Lexemes.scan text).all.length
  /-- The tree is made from the lexemes as the marks say. -/
  tree : (parse text).tree.slots = (marksOf text).map id (Mark.token (Lexemes.scan text).all)

theorem isMarked (text : Text) : IsMarked text :=
  ⟨by rw [marksOf, Slots.indices_marked, lexemeCount_shapeOf, List.range_eq_range'],
    slots_marked text⟩

/-- All nodes of a text, told by their marks and by the number of lexemes in front of them, have a
property. -/
structure Stands (text : Text) (P : Nat → Kind → Slots Kind Mark → Prop) : Prop
    extends IsMarked text where
  nodes : (marksOf text).EverywhereAt P 0

/-- What is so wherever a production makes a node is so in a text. -/
theorem stands_of_made {text : Text} {Q : Nat → Kind → Slots Kind Mark → Prop}
    (h : ∀ index kind slots, Made ((Lexemes.scan text).cursor index) kind slots →
      Q index kind ((slots.map id Piece.shape).marked index)) : Stands text Q := by
  refine ⟨isMarked text, ?_⟩
  have hgrown := grown_draftOf (Lexemes.scan text)
  rw [← Lexemes.cursor_zero] at hgrown
  exact Slots.everywhereAt_marked h _ hgrown

/-- What is so wherever the only production of a kind makes a node is so in a text. -/
theorem stands_of_makes {text : Text} {kind : Kind} {p : Production Draft}
    {Q : Nat → Slots Kind Mark → Prop} (hlist : kind ≠ .list)
    (honly : ∀ q, Production.Makes kind q → q = p)
    (h : ∀ index slots, (p ((Lexemes.scan text).cursor index)).value = .node kind slots →
      Q index ((slots.map id Piece.shape).marked index)) :
    Stands text fun index k slots => k = kind → Q index slots := by
  refine stands_of_made fun index k slots hmade hk => ?_
  subst hk
  rcases hmade with rfl | ⟨q, hq, hvalue⟩
  · exact absurd rfl hlist
  · obtain rfl := honly q hq
    exact h index slots hvalue

end Stylesheet
