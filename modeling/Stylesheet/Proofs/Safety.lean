import Stylesheet.Proofs.Checks
import Stylesheet.Proofs.Finished
import Stylesheet.Proofs.Making.Productions

/-!
# Nothing goes wrong where there is room

A parse has checks on its way: that a lexeme is there to be taken, that a loop goes on, all that a
builder looks at, and that each number and each size has 32 bits. Only the last sort can fail. It
does for a text of 4 GiB or more, and where the nodes below the root of the tree have too many
slots. The numbers of tokens and nodes are no limits of their own: each element but the root stands
in a slot, so the slots run out first.

Results:
* `SyntaxTree.Fits`: whether there is room for a tree.
* `Parser.parse_cases`: what a parse comes to, with room and without.
* `parse_safe`: all checks of a parse.
-/
namespace Stylesheet

/-! ## Room -/

/-- The slots of all nodes but the root. -/
def SyntaxTree.slotsBelow (tree : SyntaxTree) : Nat :=
  tree.slots.usage .slots - tree.slots.length

/-- Whether there is room for a tree. -/
structure SyntaxTree.Fits (tree : SyntaxTree) : Prop where
  bytes : Text.width tree.text < sizeLimit
  /-- The slots of the root stand behind all others, and where they start is a number. -/
  slots : tree.slotsBelow < sizeLimit

/-- What fills the slots of the root of a parse. -/
def partsOf (text : Text) : List Draft := (draftOf (Lexemes.scan text)).value.reduceOption

variable {text : Text}

/-- The parts of a text: the list of its items, if it has any, and its end. -/
theorem partsOf_eq (text : Text) :
    partsOf text = (Draft.list (itemsOf text).value).toList ++ [endOf text] := by
  rw [partsOf, draftOf_scan]
  cases Draft.list (itemsOf text).value <;> rfl

/-- Where only the end of the text is left, there are no items. -/
theorem itemsOf_of_nil (h : (Lexemes.scan text).body = []) : (itemsOf text).value = [] := by
  have hkind : (Cursor.ofLexemes (Lexemes.scan text)).kind = .eof := by
    simp [Cursor.kind, Cursor.kindAt, Cursor.ofLexemes, h, Lexeme.kindAt]
  have hstep := Production.documentStep_apply (Cursor.ofLexemes (Lexemes.scan text))
  rw [if_pos hkind] at hstep
  rw [itemsOf, Production.many_of_none (by rw [hstep])]

theorem usage_parse (r : Resource) (text : Text) :
    (parse text).tree.slots.usage r
      = r.ofSlot * (draftOf (Lexemes.scan text)).value.length + Draft.usage r (partsOf text) :=
  Draft.usage_ofList r (draftOf (Lexemes.scan text)).value

theorem slotsBelow_parse (text : Text) :
    (parse text).tree.slotsBelow = Draft.usage .slots (partsOf text) := by
  have hlength : (parse text).tree.slots.length = (draftOf (Lexemes.scan text)).value.length := by
    show ((Slots.ofList (draftOf (Lexemes.scan text)).value).map id Piece.token).length = _
    rw [← Slots.length_toList, Slots.toList_map, Slots.toList_ofList, List.length_map]
  rw [SyntaxTree.slotsBelow, usage_parse, hlength, show Resource.ofSlot .slots = 1 from rfl]
  omega

theorem usage_bytes_parts (text : Text) : Draft.usage .bytes (partsOf text) = Text.width text := by
  have h := usage_parse .bytes text
  rw [Slots.usage_bytes, fullWidth_parse, show Resource.ofSlot .bytes = 0 from rfl] at h
  omega

theorem usage_tokens_parts (text : Text) :
    Draft.usage .tokens (partsOf text) = (parse text).tree.slots.tokens.length := by
  have h := usage_parse .tokens text
  rw [Slots.usage_tokens, show Resource.ofSlot .tokens = 0 from rfl] at h
  omega

/-- Where something is read, a token is made besides the last one. -/
theorem two_le_tokens (h : (Lexemes.scan text).body ≠ []) :
    2 ≤ (parse text).tree.slots.tokens.length := by
  obtain ⟨pieces, hpieces, hbody, -⟩ := draftOf_pieces text
  have hne : pieces ≠ [] := by
    rintro rfl
    exact h hbody.symm
  rw [tokens_parse, hpieces, List.length_map, List.length_append]
  exact Nat.succ_le_succ (List.length_pos_iff.mpr hne)

/-- Each element below the root stands in a slot. The slots of the root hold a node at most, and it
has a token. -/
theorem usage_elements_parts (text : Text) :
    Draft.usage .tokens (partsOf text) ≤ Draft.usage .slots (partsOf text) + 1 ∧
      Draft.usage .nodes (partsOf text) ≤ Draft.usage .slots (partsOf text) := by
  rw [partsOf_eq]
  cases hlist : Draft.list (itemsOf text).value with
  | none => exact ⟨Nat.le_refl 1, Nat.le_refl 0⟩
  | some d =>
    have hbody : (Lexemes.scan text).body ≠ [] := by
      intro h
      rw [itemsOf_of_nil h] at hlist
      cases hlist
    have htokens := two_le_tokens hbody
    rw [← usage_tokens_parts, partsOf_eq, hlist] at htokens
    have hle := Tree.usage_elements_le d.element
    have hnode : 1 ≤ d.element.usage .nodes := by
      unfold Draft.list at hlist
      split at hlist
      · cases hlist
      · cases hlist
        exact Nat.le_add_right ..
    have hparts (r : Resource) : Draft.usage r ((some d).toList ++ [endOf text])
        = d.element.usage r + (endOf text).element.usage r := rfl
    have hone : (endOf text).element.usage .tokens = 1 := rfl
    have hnone : (endOf text).element.usage .nodes = 0 := rfl
    have hslot : (endOf text).element.usage .slots = 0 := rfl
    simp only [hparts] at htokens ⊢
    omega

/-- Where there is room for the tree of a parse, there are numbers for its elements. -/
theorem SyntaxTree.Fits.parts (h : (parse text).tree.Fits) :
    Draft.Fit (partsOf text) ∧ Draft.usage .nodes (partsOf text) < sizeLimit := by
  have hslots : Draft.usage .slots (partsOf text) < sizeLimit := slotsBelow_parse text ▸ h.slots
  have hbytes : Draft.usage .bytes (partsOf text) < sizeLimit := usage_bytes_parts text ▸ h.bytes
  obtain ⟨htokens, hnodes⟩ := usage_elements_parts text
  refine ⟨fun r => ?_, Nat.lt_of_le_of_lt hnodes hslots⟩
  cases r with
  | tokens => exact htokens.trans hslots
  | nodes => exact hnodes.trans (Nat.le_of_lt hslots)
  | slots => exact Nat.le_sub_one_of_lt hslots
  | bytes => exact Nat.le_sub_one_of_lt hbytes

/-! ## The way to the root -/

namespace Parser

open Carrier Builder.Holds

theorem makes_items : Makes one.option []
    (Production.many Production.documentStep >>= fun items => Parsing.list items)
    (Parsing.many (do if ← Parsing.sees .eof then return none else some <$> Parsing.item) >>=
      fun items => (Parsing.list items : Parser (Option ElementId))) := by
  refine .bind (C := one.list) [] (.many ?_) fun items => .list items
  exact .sees _ fun _ => .ite (.pure (C := one.option) none) makes_item.some

theorem document_eq : (Parsing.document : Parser (List (Option ElementId)))
    = ((Parsing.many (do if ← Parsing.sees .eof then return none else some <$> Parsing.item) >>=
        fun items => Parsing.list items) >>= fun items => Parsing.takeFinal >>= fun final =>
          return [items, some final]) := by
  rw [bind_assoc]
  rfl

/-- The final lexeme is taken where no other is left. -/
theorem takeFinal_cases {s : ParserState} {pending : List Twin} (hs : s.ended = false)
    (hnil : s.cursor.ahead = []) (hb : s.builder.Holds pending) :
    (∃ x s', (Parsing.takeFinal : Parser ElementId) s = .ok (x, s') ∧
        s'.builder.Holds (pending ++ [(.single .eof s.cursor.final, x)]) ∧
        s'.diagnostics = s.diagnostics) ∨
      (∃ e, (Parsing.takeFinal : Parser ElementId) s = .error (.build e) ∧ e.isLimit ∧
        ¬Draft.Fit (pending.map Prod.fst ++ [.single .eof s.cursor.final])) := by
  have hkind : s.cursor.kind = .eof := by
    simp [Cursor.kind, Cursor.kindAt, hnil, Lexeme.kindAt]
  have hcoming : s.coming = [s.cursor.final] := by simp [ParserState.coming, hs, hnil]
  have htake : (Parsing.takeFinal : Parser ElementId) s
      = make (·.call (Builder.Holds.callOf (.run .eof s.cursor.final []))) (s.pass 1) := by
    show takeAs s.cursor.kind s = _
    simp only [takeAs, hcoming, hkind]
    rfl
  have hpass : (s.pass 1).builder = s.builder := rfl
  rw [htake]
  rcases @Builder.Holds.token _ _ hb (.run .eof s.cursor.final []) rfl with
    ⟨x, b, hok, hheld⟩ | ⟨e, herror, he, hf⟩
  · exact .inl ⟨x, _, make_ok (s := s.pass 1) (hpass ▸ hok), hheld, rfl⟩
  · exact .inr ⟨e, make_error (s := s.pass 1) (hpass ▸ herror), he, hf⟩

/-- A parser comes to the root with what was drafted for its slots, or there is no room for that. -/
theorem document_cases (text : Text) :
    (∃ slots s, (Parsing.document : Parser (List (Option ElementId))) (start (Lexemes.scan text))
        = .ok (idsOf slots, s) ∧ draftsOf slots = (draftOf (Lexemes.scan text)).value ∧
      s.builder.Holds slots.reduceOption ∧
      s.diagnostics = (Lexemes.scan text).reports ++ (draftOf (Lexemes.scan text)).reports) ∨
    (∃ e, (Parsing.document : Parser (List (Option ElementId))) (start (Lexemes.scan text))
        = .error (.build e) ∧ e.isLimit ∧ ¬Draft.Fit (partsOf text)) := by
  have hlexed : (Cursor.ofLexemes (Lexemes.scan text)).Lexed := fun l hl =>
    (Lexemes.kind_of_mem_body hl).1
  have hfinal := final_itemsOf text
  have hnil : (itemsOf text).rest.ahead = [] := by
    have h := ahead_draftOf text
    rwa [draftOf_scan] at h
  have hitems := makes_items.follows [] (.ofLexemes (Lexemes.scan text)) Builder.empty
    (Lexemes.scan text).reports hlexed Builder.holds_empty
    (List.append_eq_nil_iff.mpr ⟨faults_itemsOf text, rfl⟩)
  rw [document_eq, draftOf_scan, partsOf_eq]
  show (∃ slots s, Except.bind _ _ = _ ∧ _) ∨ (∃ e, Except.bind _ _ = _ ∧ _)
  cases hitems with
  | full e hr he hfit =>
    refine .inr ⟨e, by rw [start, hr]; rfl, he, fun hall => hfit (hall.mono fun r => ?_)⟩
    rw [List.map_nil, List.nil_append, Draft.usage_append, drafts_option_one]
    exact Nat.le_add_right ..
  | done z b hz hr hb _ =>
    have hvalue : z.map Prod.fst = Draft.list (itemsOf text).value := hz
    rw [held_option_one, List.nil_append] at hb
    let last : ParserState := ⟨(itemsOf text).rest, false, b,
      (Lexemes.scan text).reports ++ ((itemsOf text).reports ++ [])⟩
    have hlast := takeFinal_cases (s := last) rfl hnil hb
    rw [show last.cursor.final = _ from hfinal] at hlast
    rw [start, hr, ← hvalue]
    rcases hlast with ⟨x, s, hok, hheld, hd⟩ | ⟨e, herror, he, hfit⟩
    · refine .inl ⟨[z, some (endOf text, x)], s, ?_, rfl, ?_, ?_⟩
      · show Except.bind ((Parsing.takeFinal : Parser ElementId) last) _ = _
        rw [hok]
        rfl
      · cases z <;> exact hheld
      · rw [hd]
        exact congrArg (_ ++ ·) (List.append_nil _)
    · refine .inr ⟨e, ?_, he, ?_⟩
      · show Except.bind ((Parsing.takeFinal : Parser ElementId) last) _ = _
        rw [herror]
        rfl
      · cases z <;> exact hfit

/-- A builder with nothing but the root left to be held finishes its tree. -/
theorem finish_of_holds {b : Builder} {root : Nat} (hbytes : Text.width text < sizeLimit)
    (hb : b.Holds [(.composite .document (draftOf (Lexemes.scan text)).value, .node root)]) :
    ∃ a, b.finish text root = .ok a ∧ a.tree = (Stylesheet.parse text).tree := by
  have hmem := List.mem_singleton_self
    ((Draft.composite .document (draftOf (Lexemes.scan text)).value, ElementId.node root) : Twin)
  have htree := hb.trees _ hmem
  have hwidth : b.widthOf (.node root) = Text.width text := by
    rw [hb.widthOf hmem, Tree.usage_bytes]
    exact fullWidth_parse text
  obtain ⟨e, he, hdraft⟩ := Option.map_eq_some_iff.mp htree
  obtain ⟨calls, hsound⟩ := hb.sound
  obtain ⟨a, ha⟩ := hsound.exists_finish ⟨hb.held, hwidth, hbytes⟩ fun n position t hn ht => by
    have hlocated := hb.formed.located_tokens he hn ht
    rw [hdraft] at hlocated
    exact boundaries_parse text _ hlocated
  obtain ⟨-, hplaced⟩ := hsound.placed_of_finish ha
  have hroot : a.root = root := hplaced.root
  have htext : a.text = text := hplaced.text
  have hsame : a.unplaced = b.unplaced := hplaced.unplaced
  rw [← Builder.eq_of_unplaced Builder.element?_unplaced hsame, ← hroot] at htree
  refine ⟨a, ha, ?_⟩
  rw [Arena.tree_eq htree, htext]
  rfl

/-- Where there is room for the slots below it, a builder makes the root. -/
theorem root_cases {slots : List (Option Twin)} {b : Builder} (hbytes : Text.width text < sizeLimit)
    (hslots : draftsOf slots = (draftOf (Lexemes.scan text)).value)
    (hb : b.Holds slots.reduceOption) :
    ((Stylesheet.parse text).tree.Fits ∧ ∃ b', b.node .document (idsOf slots)
        = .ok (.node b.nodes.size, b') ∧ b'.Holds [(.composite .document
          (draftOf (Lexemes.scan text)).value, .node b.nodes.size)]) ∨
      (¬(Stylesheet.parse text).tree.Fits ∧ ∃ e, b.node .document (idsOf slots) = .error e ∧
        e.isLimit) := by
  have hparts : slots.reduceOption.map Prod.fst = partsOf text := by
    rw [partsOf, ← hslots, reduceOption_draftsOf rfl]
  have hlength : slots.length = 2 := by
    have hcount := congrArg List.length hslots
    rwa [draftsOf, List.length_map, draftOf_scan] at hcount
  have hcount (expected : Nat) (he : Kind.document.slotCount? = some expected) :
      (idsOf slots).length = expected := by
    rw [idsOf, List.length_map, hlength]
    exact Option.some.inj he
  have hheld : b.Holds ([] ++ slots.reduceOption) := hb
  have hbelow : b.slots.size = (Stylesheet.parse text).tree.slotsBelow := by
    rw [slotsBelow_parse, hb.slots, hparts]
  rcases Builder.node_cases hb.formed (show Kind.document.isComposite from rfl)
      (hheld.free_idsOf rfl) hcount with
    ⟨hroom, hok⟩ | ⟨hroom, e, he, hlimit⟩
  · refine .inl ⟨⟨hbytes, hbelow ▸ hroom.2.2.1⟩, _, hok, ?_⟩
    have hnext := @Builder.Holds.adopt _ _ _ _ .document hheld rfl hroom
    rwa [hslots, List.nil_append] at hnext
  · refine .inr ⟨fun hfits => hroom ?_, e, he, hlimit⟩
    have hwidth := hheld.widthOfAll_idsOf rfl
    rw [hparts, usage_bytes_parts] at hwidth
    refine ⟨?_, hwidth ▸ hbytes, hbelow ▸ hfits.slots, ?_⟩
    · rw [hb.nodes, hparts]
      exact hfits.parts.2
    · rw [idsOf, List.length_map, hlength]
      decide

/-- What a parse comes to: with room for the tree, the tree that was drafted; without, a size or a
number that does not fit. -/
theorem parse_cases (text : Text) :
    ((Stylesheet.parse text).tree.Fits ∧ ∃ r, parse text = .ok r ∧
        r.tree.tree = (Stylesheet.parse text).tree ∧
        r.diagnostics = (Stylesheet.parse text).diagnostics) ∨
      (¬(Stylesheet.parse text).tree.Fits ∧ ∃ e, parse text = .error (.build e) ∧ e.isLimit) := by
  by_cases hbytes : Text.width text < sizeLimit
  · have hfitting : fitting (Text.width text) .textTooLong = .ok (Text.width text) := if_pos hbytes
    rcases document_cases text with ⟨slots, s, hok, hslots, hb, hd⟩ | ⟨e, herror, he, hfit⟩
    · rcases root_cases hbytes hslots hb with ⟨hfits, b, hroot, hheld⟩ | ⟨hfull, e, herror, he⟩
      · obtain ⟨a, ha, htree⟩ := finish_of_holds hbytes hheld
        refine .inl ⟨hfits, ⟨a, Diagnostic.sorted s.diagnostics⟩, ?_, htree, ?_⟩
        · simp only [parse, hfitting, ofBuild, Except.mapError, hok, make, hroot, ha,
            Builder.ok_bind]
          rfl
        · rw [hd]
          rfl
      · refine .inr ⟨hfull, e, ?_, he⟩
        simp only [parse, hfitting, ofBuild, Except.mapError, hok, make, herror, Builder.ok_bind]
        rfl
    · refine .inr ⟨fun hfits => hfit hfits.parts.1, e, ?_, he⟩
      simp only [parse, hfitting, ofBuild, Except.mapError, herror, Builder.ok_bind]
      rfl
  · refine .inr ⟨fun hfits => hbytes hfits.bytes, .textTooLong, ?_, rfl⟩
    have hfitting : fitting (Text.width text) .textTooLong = .error .textTooLong := if_neg hbytes
    simp only [parse, hfitting, ofBuild, Except.mapError]
    rfl

end Parser

/-! ## Whole texts -/

/-- What is sure of the parse of a text. -/
structure SafeParse (text : Text) : Prop where
  /-- Where there is room for its tree, a parse returns it, and what is wrong with the text. -/
  returns : (parse text).tree.Fits → ∃ r, Parser.parse text = .ok r ∧
    r.tree.tree = (parse text).tree ∧ r.diagnostics = (parse text).diagnostics
  /-- Where there is none, a size or a number is found not to fit. Nothing else is found. -/
  limited : ¬(parse text).tree.Fits → ∃ e, Parser.parse text = .error (.build e) ∧ e.isLimit
  /-- No piece is made of no lexeme or of lexemes past the end, and no loop stands still. -/
  faultless : (draftOf (Lexemes.scan text)).faults = []
  /-- Every lexeme is read once, in order. -/
  reads : (Draft.piecesOf (draftOf (Lexemes.scan text)).value).flatMap Piece.lexemes
    = (Lexemes.scan text).all
  /-- One lexeme ends the text, and it is the last one. -/
  ends : (Lexemes.scan text).final.kind = .eof ∧ ∀ l ∈ (Lexemes.scan text).body, l.kind ≠ .eof
  /-- What is counted with a counter of braces is what is read. -/
  counts : ∀ starts ls, Run.bracedLength? 0 ls = some (Run.bracedLength 0 ls) ∧
    Run.unexpectedLength? starts true ls = some (Run.unexpectedLength starts true 0 ls)
  /-- The texts of lexemes can be cut from the text. -/
  cuts : ∀ l ∈ Lexeme.located 0 (Lexemes.scan text).all,
    Text.slice? text (Span.ofWidth l.1 l.2.width) = some l.2.text
  /-- Nodes have the slots of their kind, and errors a token at least. -/
  nodes : (parse text).tree.root.element.Everywhere NodeSafe

/-- No check of a parse fails, whatever the text, but for sizes and numbers of more than 32 bits. -/
theorem parse_safe (text : Text) : SafeParse text := by
  obtain ⟨items, -, hputs, -, -⟩ := draftOf_reading (Lexemes.scan text)
  have hcases := Parser.parse_cases text
  refine ⟨fun hfits => ?_, fun hfull => ?_, hputs.faultless, lexemes_draftOf text,
    ⟨Lexemes.kind_final text, ?_⟩, ?_, ?_, everywhere_parse text⟩
  · exact (hcases.resolve_right fun h => h.1 hfits).2
  · exact (hcases.resolve_left fun h => hfull h.1).2
  · exact fun l hl => (Lexemes.kind_of_mem_body hl).2
  · exact fun starts ls => ⟨Run.bracedLength?_eq 0 ls, Run.unexpectedLength?_eq starts true ls⟩
  · intro l hl
    have hslice := @Lexeme.slice_of_mem_located (Lexemes.scan text).all [] l.1 l.2 hl
    rwa [List.nil_append, Lexemes.textOf_scan] at hslice

end Stylesheet
