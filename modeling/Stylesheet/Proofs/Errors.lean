import Stylesheet.Proofs.Conformance
import Stylesheet.Proofs.Skipping

/-!
# Errors in a tree

Errors stand among the items of a style sheet and of blocks. What an item starts with there is told
by the node that has the list or the block, so this node also tells where an error stops.

That errors stand nowhere else is read off the rows and contents of nodes: lists and blocks are all
that leads to an error, and of the lists of nodes only that of the style sheet holds some. An error
that is there was made by a step of a loop, which saw neither an item nor the end.

Results:
* `Tree.ErrorsIn`: a property of all errors and of the nodes that have them.
* `KeepsMarked.eachError`: a node has errors in its body, and a style sheet among its items.
* `Made.exists_body`: the body of a node is a block of its items.
* `errors_skip`: what each error takes, in every text.
-/
namespace Stylesheet

/-! ## The nodes that have errors -/

namespace Kind

/-- Whether nodes of a kind belong to the node around them, with what is below. -/
def isTransparent (kind : Kind) : Bool := kind = .list || kind = .block

theorem isTransparent_iff {kind : Kind} : kind.isTransparent ↔ kind = .list ∨ kind = .block := by
  simp [isTransparent]

/-- The kind of the node that has what is below a node, `owner` being that of the node around it. -/
def around (kind owner : Kind) : Kind := if kind.isTransparent then owner else kind

/-- What items start with in the body of a node. -/
def bodyStarts? : Kind → Option KindSet
  | .ruleSet => some Production.nameStarts
  | .propertyTrigger | .eventTrigger => some Production.actionStarts
  | .storyboard => some (.singleton .targetKeyword)
  | .storyboardTarget => some (.singleton .animationKeyword)
  | .animation => some (.singleton .keyframeKeyword)
  | _ => none

/-- What items start with below a node. -/
def itemStarts? (kind : Kind) : Option KindSet :=
  if kind = .document then some Production.itemStarts else kind.bodyStarts?

/-- A body is the last of the slots. -/
def bodySlot (kind : Kind) : Nat := kind.layout.length - 1

end Kind

mutual

/-- Whether each error has a property of its slots and of the kind of the node that has it. -/
def Tree.ErrorsIn (P : Kind → Slots Kind Mark → Prop) (owner : Kind) : Tree Kind Mark → Prop
  | .token _ => True
  | .node kind slots => (kind = .error → P owner slots) ∧ slots.ErrorsIn P (kind.around owner)

def Slots.ErrorsIn (P : Kind → Slots Kind Mark → Prop) (owner : Kind) : Slots Kind Mark → Prop
  | .nil => True
  | .empty rest => rest.ErrorsIn P owner
  | .filled t rest => t.ErrorsIn P owner ∧ rest.ErrorsIn P owner

end

mutual

/-- Whether each error of one node has a property of its slots. -/
def Tree.EachError (Q : Slots Kind Mark → Prop) : Tree Kind Mark → Prop
  | .token _ => True
  | .node kind slots => (kind = .error → Q slots) ∧ (kind.isTransparent → slots.EachError Q)

def Slots.EachError (Q : Slots Kind Mark → Prop) : Slots Kind Mark → Prop
  | .nil => True
  | .empty rest => rest.EachError Q
  | .filled t rest => t.EachError Q ∧ rest.EachError Q

end

section ErrorsIn

variable {P : Kind → Slots Kind Mark → Prop}

mutual

theorem Tree.EachError.errorsIn {owner : Kind} {t : Tree Kind Mark} (h : t.EachError (P owner))
    (hall : t.Everywhere fun kind slots => ¬kind.isTransparent → slots.EachError (P kind)) :
    t.ErrorsIn P owner := by
  match t with
  | .token _ => trivial
  | .node kind slots =>
    refine ⟨h.1, ?_⟩
    unfold Kind.around
    split
    · next hk => exact Slots.EachError.errorsIn (h.2 hk) hall.2
    · next hk => exact Slots.EachError.errorsIn (hall.1 hk) hall.2

/-- Every error is one of some node. -/
theorem Slots.EachError.errorsIn {owner : Kind} {s : Slots Kind Mark} (h : s.EachError (P owner))
    (hall : s.Everywhere fun kind slots => ¬kind.isTransparent → slots.EachError (P kind)) :
    s.ErrorsIn P owner := by
  match s with
  | .nil => trivial
  | .empty rest => exact Slots.EachError.errorsIn (s := rest) h hall
  | .filled t rest =>
    exact ⟨Tree.EachError.errorsIn h.1 hall.1, Slots.EachError.errorsIn h.2 hall.2⟩

end

end ErrorsIn

/-! ## Where errors can stand -/

section Tables

variable {Q : Slots Kind Mark → Prop} {f : Mark → Token}

theorem Slots.eachError_of_forall {s : Slots Kind Mark}
    (h : ∀ t, some t ∈ s.toList → t.EachError Q) : s.EachError Q := by
  match s with
  | .nil => trivial
  | .empty rest =>
    exact rest.eachError_of_forall fun t ht => h t (List.mem_cons_of_mem _ ht)
  | .filled t rest =>
    exact ⟨h t List.mem_cons_self,
      rest.eachError_of_forall fun t ht => h t (List.mem_cons_of_mem _ ht)⟩

/-- A row of nodes that lead to no errors but are some themselves. -/
theorem Slots.eachError_of_kinds {kinds : List Kind} {s : Slots Kind Mark}
    (hs : ∀ kind inner, some (.node kind inner) ∈ s.toList → kind ∈ kinds)
    (hk : kinds.all (!·.isTransparent))
    (he : .error ∈ kinds → ∀ e, some (.node .error e) ∈ s.toList → Q e) : s.EachError Q := by
  refine s.eachError_of_forall fun t ht => ?_
  match t with
  | .token _ => trivial
  | .node kind inner =>
    have hmem := hs kind inner ht
    have hplain := List.all_eq_true.mp hk kind hmem
    refine ⟨?_, fun htransparent => by simp [htransparent] at hplain⟩
    rintro rfl
    exact he hmem inner ht

namespace Contents

/-- The kinds of what stands in a list. -/
def listKinds? : Contents → Option (List Kind)
  | .items kinds => some kinds
  | .separated kinds => some (.comma :: kinds)
  | _ => none

/-- The kinds of what stands in the list of a block. -/
def bodyKinds? : Contents → Option (List Kind)
  | .body kinds => some (.error :: kinds)
  | _ => none

end Contents

theorem Alternate.kind_mem {kinds : List Kind} {slots : List (Option Element)}
    (h : Alternate kinds slots) {e : Element} (he : some e ∈ slots) :
    e.kind ∈ .comma :: kinds := by
  induction h with
  | last hitem =>
    cases List.mem_singleton.mp he
    exact List.mem_cons_of_mem _ hitem.1
  | trailing hitem hcomma =>
    rcases List.mem_cons.mp he with he | he
    · cases he
      exact List.mem_cons_of_mem _ hitem.1
    · cases List.mem_singleton.mp he
      exact List.mem_cons.mpr (.inl (List.mem_singleton.mp hcomma.1))
  | next hitem hcomma _ ih =>
    rcases List.mem_cons.mp he with he | he
    · cases he
      exact List.mem_cons_of_mem _ hitem.1
    rcases List.mem_cons.mp he with he | he
    · cases he
      exact List.mem_cons.mpr (.inl hcomma)
    · exact ih he

theorem AreItems.kind_mem {kinds : List Kind} {slots : List (Option Element)}
    (h : AreItems kinds slots) {e : Element} (he : some e ∈ slots) : e.kind ∈ kinds := by
  obtain ⟨_, hsome, hitem⟩ := h _ he
  cases hsome
  exact hitem.1

theorem Contents.Of.kind_mem {contents : Contents} {list e : Element} {kinds : List Kind}
    (h : contents.Of list) (hk : contents.listKinds? = some kinds)
    (he : some e ∈ list.slots.toList) : e.kind ∈ kinds := by
  cases contents with
  | items => cases hk; exact AreItems.kind_mem h he
  | separated => cases hk; exact Alternate.kind_mem h he
  | _ => cases hk

theorem Contents.Of.body_kind_mem {contents : Contents} {block list e : Element} {kinds : List Kind}
    (h : contents.Of block) (hk : contents.bodyKinds? = some kinds)
    (hlist : block.slots.toList[1]? = some (some list)) (he : some e ∈ list.slots.toList) :
    e.kind ∈ kinds := by
  cases contents with
  | body => cases hk; exact AreItems.kind_mem (h list hlist) he
  | _ => cases hk

/-- Where the tables let lists and blocks stand, as far as they lead to errors. -/
def Kind.nests (kind : Kind) (slot : Nat) : Kind → Bool
  | .error => false
  | .list => kind = .block && slot = 1 || (kind.contents slot).listKinds?.any fun kinds =>
      kinds.all (!·.isTransparent) && (.error ∉ kinds || kind = .document && slot = 0)
  | .block => (kind.contents slot).bodyKinds?.any fun kinds =>
      kinds.all (!·.isTransparent) && kind.bodyStarts?.isSome && slot = kind.bodySlot
  | _ => true

theorem Kind.nests_layout (kind : Kind) : ∀ p ∈ kind.layout.zipIdx, ∀ inner ∈ p.1.kinds,
    kind.nests p.2 inner = true := by
  cases kind <;> decide

/-- The slots of a node keep to the tables, told by their marks. -/
def KeepsMarked (f : Mark → Token) (kind : Kind) (slots : Slots Kind Mark) : Prop :=
  Keeps Kind.layout Kind.contents kind (slots.map id f)

theorem Slots.mem_itemsIn {slots s : Slots Kind Mark} {t : Tree Kind Mark} {i : Nat}
    (hs : slots.toList[i]? = some (some (.node .list s))) (ht : some t ∈ s.toList) :
    t ∈ slots.itemsIn i := by
  rw [itemsIn, hs]
  exact List.mem_filterMap.mpr ⟨_, ht, rfl⟩

theorem Slots.mem_toList_map {s : Slots Kind Mark} {t : Tree Kind Mark} (ht : some t ∈ s.toList) :
    some (t.map id f) ∈ (s.map id f).toList := by
  rw [toList_map]
  exact List.mem_map_of_mem ht

namespace KeepsMarked

variable {kind inner : Kind} {slots s : Slots Kind Mark} {i : Nat}

theorem getElem? (hs : slots.toList[i]? = some (some (.node inner s))) :
    (slots.map id f).toList[i]? = some (some (.node inner (s.map id f))) := by
  rw [Slots.toList_map, List.getElem?_map, hs]
  rfl

theorem nests (h : KeepsMarked f kind slots) (hl : kind ≠ .list) (he : kind ≠ .error)
    (hs : slots.toList[i]? = some (some (.node inner s))) : kind.nests i inner := by
  obtain ⟨rule, hrule, htakes⟩ := h.takes hl he (getElem? hs)
  exact Kind.nests_layout kind (rule, i) (List.mk_mem_zipIdx_iff_getElem?.mpr hrule) inner
    htakes.1

theorem ne_error (h : KeepsMarked f kind slots) (hl : kind ≠ .list) (he : kind ≠ .error)
    (hs : slots.toList[i]? = some (some (.node inner s))) : inner ≠ .error := by
  rintro rfl
  cases h.nests hl he hs

/-- The list of a node has errors among its items only in a style sheet. -/
theorem eachError_list (h : KeepsMarked f kind slots) (hk : ¬kind.isTransparent)
    (he : kind ≠ .error) (hs : slots.toList[i]? = some (some (.node .list s)))
    (hitems : kind = .document → ∀ e, .node .error e ∈ slots.itemsIn 0 → Q e) :
    s.EachError Q := by
  obtain ⟨hl, hb⟩ := not_or.mp (Kind.isTransparent_iff.not.mp hk)
  have hnests := h.nests hl he hs
  rw [Kind.nests, decide_eq_false hb, Bool.false_and, Bool.false_or, Option.any_eq_true] at hnests
  obtain ⟨kinds, hkinds, hplain⟩ := hnests
  obtain ⟨htransparent, herror⟩ := Bool.and_eq_true_iff.mp hplain
  refine Slots.eachError_of_kinds (fun k inner ht => ?_) htransparent fun hin e ht => ?_
  · exact (h.contents i _ (getElem? hs)).kind_mem hkinds (Slots.mem_toList_map ht)
  · obtain ⟨hdocument, rfl⟩ : kind = .document ∧ i = 0 := by simpa [hin] using herror
    exact hitems hdocument e (Slots.mem_itemsIn hs ht)

/-- The block of a node is its body, and has errors among its items. -/
theorem eachError_block (h : KeepsMarked f kind slots) (hk : ¬kind.isTransparent)
    (he : kind ≠ .error) (hs : slots.toList[i]? = some (some (.node .block s)))
    (hblock : KeepsMarked f .block s)
    (hbody : kind.bodyStarts?.isSome → ∀ e, .node .error e ∈ slots.bodyIn kind.bodySlot → Q e) :
    s.EachError Q := by
  obtain ⟨hl, -⟩ := not_or.mp (Kind.isTransparent_iff.not.mp hk)
  obtain ⟨kinds, hkinds, hplain⟩ := (Option.any_eq_true _ _).mp (h.nests hl he hs)
  obtain ⟨hplain, hslot⟩ := Bool.and_eq_true_iff.mp hplain
  obtain ⟨htransparent, hstarts⟩ := Bool.and_eq_true_iff.mp hplain
  obtain rfl := of_decide_eq_true hslot
  refine s.eachError_of_forall fun t ht => ?_
  obtain ⟨j, hj⟩ := List.getElem?_of_mem ht
  match t with
  | .token _ => trivial
  | .node k items =>
    have hnests := hblock.nests (by decide) (by decide) hj
    refine ⟨fun h => absurd h (hblock.ne_error (by decide) (by decide) hj), fun ht => ?_⟩
    rcases Kind.isTransparent_iff.mp ht with rfl | rfl
    · obtain rfl : j = 1 := by simpa [Kind.nests, Kind.contents, Contents.listKinds?] using hnests
      refine Slots.eachError_of_kinds (fun k inner ht => ?_) htransparent fun _ e ht => ?_
      · exact (h.contents _ _ (getElem? hs)).body_kind_mem hkinds (getElem? hj)
          (Slots.mem_toList_map ht)
      · refine hbody hstarts e ?_
        rw [Slots.bodyIn, hs]
        exact Slots.mem_itemsIn hj ht
    · cases hnests

/-- The errors of a node are items of a style sheet or of a body. -/
theorem eachError (h : KeepsMarked f kind slots) (hbelow : slots.Everywhere (KeepsMarked f))
    (hk : ¬kind.isTransparent)
    (hitems : kind = .document → ∀ e, .node .error e ∈ slots.itemsIn 0 → Q e)
    (hbody : kind.bodyStarts?.isSome → ∀ e, .node .error e ∈ slots.bodyIn kind.bodySlot → Q e) :
    slots.EachError Q := by
  refine slots.eachError_of_forall fun t ht => ?_
  obtain ⟨i, hi⟩ := List.getElem?_of_mem ht
  match t with
  | .token _ => trivial
  | .node inner s =>
    have he : kind ≠ .error := by
      rintro rfl
      obtain ⟨token, htoken, -⟩ := (h.error rfl).2 _ (List.mem_of_getElem? (getElem? hi))
      cases htoken
    have hl : kind ≠ .list := by
      rintro rfl
      exact hk rfl
    refine ⟨fun herror => absurd herror (h.ne_error hl he hi), fun htransparent => ?_⟩
    rcases Kind.isTransparent_iff.mp htransparent with rfl | rfl
    · exact h.eachError_list hk he hi hitems
    · exact h.eachError_block hk he hi (hbelow.of_mem ht).1 hbody

end KeepsMarked

end Tables

/-! ## What makes an error -/

/-- The marks of lexemes from an index up to another one, each a token of its own. -/
def Lexemes.marksBetween (ls : Lexemes) (start stop : Nat) : Slots Kind Mark :=
  .ofList <| (List.range' start (stop - start)).map fun i =>
    some (.token (.run (Lexeme.kindAt ls.all i) i 0))

/-- Whether these are the slots of an error below a node of a kind: lexemes of the text, as many as
are skipped. In the style sheet itself a closing brace may come first. -/
inductive Lexemes.IsError (ls : Lexemes) (owner : Kind) : Slots Kind Mark → Prop
  | intro {starts : KindSet} {start stop : Nat} (hstarts : owner.itemStarts? = some starts)
      (hlt : start < stop) (h : ls.Skipped starts (owner = .document) start stop) :
      IsError ls owner (ls.marksBetween start stop)

/-- Without a closing brace in front none comes first. -/
theorem Lexemes.Skipped.of_start {ls : Lexemes} {starts : KindSet} {start stop : Nat} {first : Bool}
    (h : ls.Skipped starts true start stop)
    (hk : Lexeme.kindAt ls.all start = .rightBrace → first = true) :
    ls.Skipped starts first start stop where
  le := h.le
  items := h.items
  braces j hj hbrace := by
    obtain ⟨-, rfl⟩ := h.braces j hj hbrace
    exact ⟨hk hbrace, rfl⟩
  semicolons := h.semicolons
  closes j hle hlt hbrace := by
    refine (h.closes j hle hlt hbrace).imp_right ?_
    rintro ⟨-, rfl⟩
    exact ⟨hk hbrace, rfl⟩
  stops := h.stops

namespace Production

variable {ls : Lexemes} {i : Nat}

theorem unexpected_value (starts : KindSet) (c : Cursor) :
    (unexpected starts c).value = .composite .error
      ((c.ahead.take (Run.unexpectedLength starts true 0 c.ahead)).map fun l =>
        some (.single l.kind l)) := by
  simp [Parsing.unexpected, look, report, takeEach_apply (unexpectedLength_le starts true 0 c.ahead),
    Function.comp_def]

/-- Lexemes that are taken one by one, from an index on. -/
theorem markedRow_taken (hf : ls.final.kind = .eof) {count : Nat} (h : i + count ≤ ls.body.length) :
    Draft.markedRow i (((ls.body.drop i).take count).map fun l => some (.single l.kind l))
      = (List.range' i count).map fun j => some (.token (.run (Lexeme.kindAt ls.all j) j 0)) := by
  induction count generalizing i with
  | zero => rw [List.take_zero]; rfl
  | succ count ih =>
    obtain ⟨l, -, hdrop, hkind⟩ := (Lexemes.drop_cases hf i).resolve_left (by omega)
    rw [hdrop, List.take_succ_cons, List.map_cons, Draft.markedRow, List.range'_succ,
      List.map_cons, ← ih (by omega), hkind]
    rfl

theorem unexpected_marked (hf : ls.final.kind = .eof) {owner : Kind} {starts : KindSet}
    (hstarts : owner.itemStarts? = some starts)
    (hs : ¬starts.contains (Lexeme.kindAt ls.all i)) (he : Lexeme.kindAt ls.all i ≠ .eof)
    (hr : Lexeme.kindAt ls.all i = .rightBrace → owner = .document) {e : Slots Kind Mark}
    (h : (unexpected starts (ls.cursor i)).value.shape.marked i = .node .error e) :
    ls.IsError owner e := by
  have hahead : (ls.cursor i).ahead = ls.body.drop i := rfl
  obtain ⟨l, hlt, hdrop, -⟩ := (Lexemes.drop_cases hf i).resolve_left fun hend => he hend.2
  have hle := unexpectedLength_le starts true 0 (ls.body.drop i)
  rw [List.length_drop] at hle
  have hpos : 0 < Run.unexpectedLength starts true 0 (ls.body.drop i) := by
    rw [hdrop]
    exact unexpectedLength_pos starts l _
  rw [unexpected_value, Draft.marked_composite, hahead, markedRow_taken hf (by omega)] at h
  obtain rfl := (Tree.node.inj h).2
  have hskipped := @Lexemes.skipped_unexpectedLength ls starts true hf i fun _ => hs
  have herror := Lexemes.IsError.intro hstarts (Nat.lt_add_of_pos_right hpos)
    (hskipped.of_start fun hk => decide_eq_true (hr hk))
  rwa [Lexemes.marksBetween, Nat.add_sub_cancel_left] at herror

end Production

/-! ## Bodies -/

namespace Production

variable {starts : KindSet} {item : Production Draft} {c : Cursor}

theorem Bodies.plain (hb : Bodies starts item) (h : starts.contains c.kind) : Item item .plain c := by
  cases hb with
  | ruleSet => exact ruleSetItem_item h
  | trigger => exact action_item h
  | storyboard => exact target_item h
  | target => exact animation_item h
  | animation => exact keyframe_item h

/-- The items of a body are no errors. -/
theorem Bodies.kind_ne_error (hb : Bodies starts item) (h : starts.contains c.kind) :
    (item c).value.kind ≠ .error := by
  have hnot {kinds : List Kind} (htidy : (item c).value.Tidy kinds) (hk : .error ∉ kinds) :
      (item c).value.kind ≠ .error := fun he => hk (he ▸ htidy.mem)
  cases hb with
  | ruleSet => exact hnot (ruleSetItem_tidy c) (by decide)
  | trigger => exact hnot (action_tidy h) (by decide)
  | storyboard => exact hnot (target_tidy c) (by decide)
  | target => exact hnot (animation_tidy c) (by decide)
  | animation => exact hnot (keyframe_tidy c) (by decide)

end Production

open Production

/-- The last slot of a node with a body holds a block of its items, made where it stands. -/
theorem Made.exists_body {c : Cursor} {kind : Kind} {slots : Slots Kind Piece} {starts : KindSet}
    (h : Made c kind slots) (hs : kind.bodyStarts? = some starts) :
    ∃ item front c', Bodies starts item ∧ Grown c front c' ∧ front.length = kind.bodySlot ∧
      slots = .ofList (front ++ [some (block starts item c').value]) := by
  rcases h with rfl | ⟨p, hp, hvalue⟩
  · cases hs
  cases hp with
  | ruleSet =>
    cases hs
    obtain rfl := (Tree.node.inj hvalue).2
    refine ⟨ruleSetItem, [_], _, .ruleSet, ?_, rfl, rfl⟩
    exact @separated_grown .selector (fun c => partStarts.contains c.kind) navigatedSelector
      (fun _ h => (navigatedSelector_item h).reads) (fun c _ => navigatedSelector_grown c) c
  | propertyTrigger =>
    cases hs
    rw [propertyTrigger_apply] at hvalue
    obtain rfl := (Tree.node.inj hvalue).2
    refine ⟨action, [_, _, _, _], _, .trigger, ?_, rfl, rfl⟩
    exact Grown.cons (expect_grown rfl (by decide) _) <| .cons (expect_grown rfl (by decide) _) <|
      .cons (evaluations_grown _) (qualifier_grown _)
  | eventTrigger =>
    cases hs
    obtain rfl := (Tree.node.inj hvalue).2
    refine ⟨action, [_, _, _, _, _], _, .trigger, ?_, rfl, rfl⟩
    exact Grown.cons (expect_grown rfl (by decide) _) <| .cons (expect_grown rfl (by decide) _) <|
      .cons (qualifiedName_grown .eventName _) <|
      .cons (optional_grown fun _ => eventArguments_grown _) (qualifier_grown _)
  | storyboard =>
    cases hs
    obtain rfl := (Tree.node.inj hvalue).2
    refine ⟨target, [_, _, _], _, .storyboard, ?_, rfl, rfl⟩
    have hloop (c : Cursor) (h : nameStarts.contains c.kind) :
        (loopBehavior c).Grows c [some (loopBehavior c).value] :=
      (loopBehavior_puts (contains_nameStarts _ ▸ h)).grows (by decide)
    exact Grown.cons (expect_grown rfl (by decide) _) <|
      .cons (expectName_grown _) (optional_grown (hloop _))
  | storyboardTarget =>
    cases hs
    obtain rfl := (Tree.node.inj hvalue).2
    refine ⟨animation, [_, _, _], _, .target, ?_, rfl, rfl⟩
    exact Grown.cons (expect_grown rfl (by decide) _) <|
      .cons (optionalName_grown _) (optional_grown fun _ => parenthesizedSelector_grown _)
  | animation =>
    cases hs
    obtain rfl := (Tree.node.inj hvalue).2
    refine ⟨keyframe, [_, _, _], _, .animation, ?_, rfl, rfl⟩
    exact Grown.cons (expect_grown rfl (by decide) _) <|
      .cons (qualifiedName_grown .propertyName _) (optional_grown fun _ => navigation_grown _)
  | _ => cases hs

namespace Production

variable {ls : Lexemes} {i : Nat} {d : Draft} {e : Slots Kind Mark}

theorem kind_of_marked {kind : Kind} (h : d.shape.marked i = .node kind e) : d.kind = kind := by
  match d with
  | .token (.run _ _ _) => cases h
  | .token (.missing _) => cases h
  | .node _ _ => cases h; rfl

/-- An error in a body is one of the node that has the body. -/
theorem bodyError (hf : ls.final.kind = .eof) {kind : Kind} {starts : KindSet}
    {item : Production Draft} (hs : kind.bodyStarts? = some starts) (hb : Bodies starts item)
    (hd : (blockStep starts item (ls.cursor i)).value = some d)
    (h : d.shape.marked i = .node .error e) : ls.IsError kind e := by
  have hitems : kind.itemStarts? = some starts := by
    rw [Kind.itemStarts?, if_neg, hs]
    rintro rfl
    cases hs
  rcases blockStep_cases hd with ⟨hstart, rfl⟩ | ⟨⟨hstart, hbrace, heof⟩, rfl⟩
  · exact absurd (kind_of_marked h) (hb.kind_ne_error hstart)
  · rw [Lexemes.kind_cursor hf] at hstart hbrace heof
    exact unexpected_marked hf hitems hstart heof (fun hk => absurd hk hbrace) h

/-- An error among the items of a style sheet is one of the style sheet. -/
theorem sheetError (hf : ls.final.kind = .eof) (hd : (documentStep (ls.cursor i)).value = some d)
    (h : d.shape.marked i = .node .error e) : ls.IsError .document e := by
  rw [documentStep_apply] at hd
  split at hd
  · cases hd
  next heof =>
  cases hd
  by_cases ht : (ls.cursor i).kind = .triggerKeyword
  · have hmem := (trigger_tidy (ls.cursor i)).mem
    have hkind := kind_of_marked h
    rw [item_trigger ht] at hkind
    exact absurd (hkind ▸ hmem : Kind.error ∈ [.propertyTrigger, .eventTrigger]) (by decide)
  by_cases ha : (ls.cursor i).kind = .atSign
  · rw [item_storyboard ha] at h
    cases kind_of_marked h
  rw [item_other ht ha] at h
  split at h
  · cases kind_of_marked h
  · next hp =>
    rw [Lexemes.kind_cursor hf] at hp ha heof
    exact unexpected_marked hf rfl (by simpa [itemStarts, ha] using hp) heof (fun _ => rfl) h

end Production

/-- The errors in the body of a node below the style sheet. -/
theorem Made.bodyErrors {ls : Lexemes} (hf : ls.final.kind = .eof) {index : Nat} {kind : Kind}
    {slots : Slots Kind Piece} (h : Made (ls.cursor index) kind slots) :
    kind ≠ .document ∧ (kind.bodyStarts?.isSome → ∀ e, .node .error e ∈
      ((slots.map id Piece.shape).marked index).bodyIn kind.bodySlot → ls.IsError kind e) := by
  constructor
  · rintro rfl
    rcases h with hlist | ⟨p, hp, -⟩
    · cases hlist
    · cases hp
  · intro hsome e he
    obtain ⟨starts, hstarts⟩ := Option.isSome_iff_exists.mp hsome
    obtain ⟨item, front, c, hb, hfront, hslot, rfl⟩ := h.exists_body hstarts
    rw [Draft.marked_ofList, ← hslot] at he
    exact block_each hf (fun _ => hb.plain) (Q := fun t => t = .node .error e → ls.IsError kind e)
      (fun _ _ hd => bodyError hf hstarts hb hd) index front []
      (Lexemes.eq_cursor hfront.passes) _ he rfl

/-- The errors among the items of a style sheet. -/
theorem sheetErrors (text : Text) : ∀ e, .node .error e ∈ (marksOf text).itemsIn 0 →
    (Lexemes.scan text).IsError .document e := by
  intro e he
  rw [marksOf, shapeOf, Draft.marked_ofList, draftOf, document_apply] at he
  have hitems := Draft.itemsIn_markedRow 0 []
    [some (.single .eof (many documentStep (.ofLexemes (Lexemes.scan text))).rest.final)]
    (many documentStep (.ofLexemes (Lexemes.scan text))).value
  have hmem := hitems.subst (motive := (Tree.node Kind.error e ∈ ·)) he
  rw [← Lexemes.cursor_zero] at hmem
  exact many_each documentStep_steps
    (Q := fun t => t = .node .error e → (Lexemes.scan text).IsError .document e)
    (fun _ _ hd => sheetError (Lexemes.kind_final text) hd) 0 _ hmem rfl

/-- Each error takes what is skipped from where it starts. -/
theorem errors_skip (text : Text) :
    IsMarked text ∧ (marksOf text).ErrorsIn (Lexemes.scan text).IsError .document := by
  have hmarked := isMarked text
  obtain ⟨hroot, hkeeps⟩ : Keeps Kind.layout Kind.contents .document (parse text).tree.slots ∧
    (parse text).tree.slots.Everywhere (Keeps Kind.layout Kind.contents) := everywhere_keeps text
  rw [hmarked.tree] at hroot hkeeps
  rw [Slots.everywhere_map] at hkeeps
  have hbodies : Stands text fun _ kind slots => kind ≠ .document ∧
      (kind.bodyStarts?.isSome → ∀ e, .node .error e ∈ slots.bodyIn kind.bodySlot →
        (Lexemes.scan text).IsError kind e) :=
    stands_of_made fun _ _ _ hmade => hmade.bodyErrors (Lexemes.kind_final text)
  have hnodes := Slots.Everywhere.and hkeeps hbodies.nodes.everywhere
  refine ⟨hmarked, Slots.EachError.errorsIn ?_ (hnodes.deepen ?_)⟩
  · exact KeepsMarked.eachError hroot hkeeps (by decide) (fun _ => sheetErrors text) nofun
  · rintro kind slots ⟨hnode, hdocument, hbody⟩ hbelow hk
    exact KeepsMarked.eachError hnode (hbelow.mono fun _ _ h => h.1) hk
      (fun h => absurd h hdocument) hbody

end Stylesheet
