import Stylesheet.Proofs.Lossless

/-!
# What is wrong with a tree

The structure of a text is all in its tree, so what is wrong with it is there too. A token may be
missing, or be one that its slot does not know; a slot may be empty that should not be; a node may
be an error, a trigger out of place, or a list that ends with a comma. `SyntaxTree.defects` finds
all of this in a tree, without a look at how the tree was made.

What is missing is noticed where the text goes on, that is at the next present token.

Results:
* `Token.textStart`: where the text of the first present token starts.
* `Tree.defects`, `Slots.defects`: the defects of an element and of what stands in slots.
* `Reading.sites`: a reading reports the defects of what it reads, in the same order.
* `parse_inventory`: a parse reports what its scan reports and the defects of its tree, and nothing
  else.
-/
namespace Stylesheet

/-- What a diagnostic is about, and where it starts. -/
def Diagnostic.site (d : Diagnostic) : Code × Nat := (d.code, d.span.start)

/-! ## Where text starts -/

/-- Where the text of the first present token starts, or else where the text goes on. -/
def Token.textStart (position next : Nat) (ts : List Token) : Nat :=
  (((located position ts).find? (·.2.isPresent)).map fun t => t.1 + t.2.leadingWidth).getD next

def Slots.textStart (position next : Nat) (s : Slots Kind Token) : Nat :=
  Token.textStart position next s.tokens

/-! ## Defects -/

/-- Whether the first slot holds a missing token. -/
def Slots.areBare : Slots Kind Token → Bool
  | .filled e _ => e.isMissing
  | _ => false

/-- The kind of what stands in the last slot. -/
def Slots.lastKind? (s : Slots Kind Token) : Option Kind := s.toList.getLast?.join.map Tree.kind

/-- The roles that a node gives to what stands in its slots. A list hands on its own. -/
def SlotRole.within (role : SlotRole) (kind : Kind) (bare : Bool) (slot : Nat) : SlotRole :=
  if kind = .list then role.inner else ofSlot kind bare slot

/-- What is wrong with a token at a position, when the text goes on at `next` behind it. -/
def Token.defects (text : Text) (role : SlotRole) (position next : Nat) :
    Token → List (Code × Nat)
  | .missing _ => if role = .covered then [] else [(.missingToken, next)]
  | .present kind leading width _ =>
    let start := position + Trivia.totalWidth leading
    match role with
    | .argument =>
      if kind = .comma ∨ kind = .handledKeyword ∨ kind = .setHandledKeyword then []
      else [(.unexpectedToken, start)]
    | .loopBehavior =>
      if (Text.slice? text (Span.ofWidth start width)).any Production.isLoopBehavior then []
      else [(.unknownLoopBehavior, start)]
    | _ => []

/-- What is wrong with a node because of its kind. -/
def Kind.defects (kind : Kind) (role : SlotRole) (start : Nat) : List (Code × Nat) :=
  if kind = .error ∨ (role = .item ∧ kind.isTrigger) then [(.unexpectedToken, start)] else []

/-- What is wrong with a list that ends with a comma. -/
def Slots.trailingDefects (kind : Kind) (next : Nat) (s : Slots Kind Token) : List (Code × Nat) :=
  if kind = .list ∧ s.lastKind? = some .comma then [(.unexpectedToken, next)] else []

mutual

/-- The defects of an element in a role, at a position, when the text goes on at `next` behind
it. -/
def Tree.defects (text : Text) (role : SlotRole) (position next : Nat) :
    Tree Kind Token → List (Code × Nat)
  | .token t => t.defects text role position next
  | .node kind slots =>
    kind.defects role (slots.textStart position next)
      ++ slots.defects text (role.within kind slots.areBare) 0 position next
      ++ slots.trailingDefects kind next

/-- The defects of what stands in slots, the first of them being slot `index`. -/
def Slots.defects (text : Text) (roleOf : Nat → SlotRole) (index position next : Nat) :
    Slots Kind Token → List (Code × Nat)
  | .nil => []
  | .empty rest =>
    (if roleOf index = .needed then [(.missingToken, rest.textStart position next)] else [])
      ++ rest.defects text roleOf (index + 1) position next
  | .filled e rest =>
    e.defects text (roleOf index) position (rest.textStart (position + e.fullWidth) next)
      ++ rest.defects text roleOf (index + 1) (position + e.fullWidth) next

end

/-- The defects of a whole tree. -/
def SyntaxTree.defects (tree : SyntaxTree) : List (Code × Nat) :=
  tree.root.element.defects tree.text .plain 0 (Text.width tree.text)

/-! ## Rows of drafts -/

namespace Draft

variable {text : Text} {position next : Nat}

/-- Where the text of a row of slots starts. -/
def textStart (position next : Nat) (row : List (SlotRole × Option Draft)) : Nat :=
  Token.textStart position next ((piecesOf (row.map Prod.snd)).map Piece.token)

/-- The defects of a row of slots, each with its role. -/
def defects (text : Text) (position next : Nat) :
    List (SlotRole × Option Draft) → List (Code × Nat)
  | [] => []
  | (role, none) :: rest =>
    (if role = .needed then [(.missingToken, textStart position next rest)] else [])
      ++ defects text position next rest
  | (role, some d) :: rest =>
    d.element.defects text role position (textStart (position + d.element.fullWidth) next rest)
      ++ defects text (position + d.element.fullWidth) next rest

theorem tokens_element (d : Draft) : d.element.tokens = d.tokens.map Piece.token :=
  Tree.tokens_map ..

theorem fullWidth_element (d : Draft) : d.element.fullWidth = Lexeme.widthOf d.lexemes := by
  rw [Tree.fullWidth_eq_totalWidth, tokens_element, Piece.totalWidth_tokens]
  rfl

theorem slots_textStart (row : List (SlotRole × Option Draft)) :
    ((Slots.ofList (row.map Prod.snd)).map id Piece.token).textStart position next
      = textStart position next row := by
  rw [Slots.textStart, Slots.tokens_map, tokens_ofList]
  rfl

/-- The defects of slots are those of the row of them. -/
theorem slots_defects {roleOf : Nat → SlotRole} {index : Nat}
    {row : List (SlotRole × Option Draft)}
    (h : row.map Prod.fst = (List.range' index row.length).map roleOf) :
    ((Slots.ofList (row.map Prod.snd)).map id Piece.token).defects text roleOf index position next
      = defects text position next row := by
  induction row generalizing index position with
  | nil => rfl
  | cons x rest ih =>
    obtain ⟨role, slot⟩ := x
    simp only [List.map_cons, List.length_cons, List.range'_succ, List.cons.injEq] at h
    obtain ⟨rfl, hrest⟩ := h
    cases slot with
    | none =>
      simp only [List.map_cons, Slots.ofList, Slots.map, Slots.defects, slots_textStart, ih hrest]
      rfl
    | some d =>
      simp only [List.map_cons, Slots.ofList, Slots.map, Slots.defects, slots_textStart, ih hrest]
      rfl

theorem map_fst_assign (kind : Kind) (bare : Bool) (index : Nat) (slots : List (Option Draft)) :
    (SlotRole.assign kind bare index slots).map Prod.fst
      = (List.range' index slots.length).map (SlotRole.ofSlot kind bare) := by
  induction slots generalizing index with
  | nil => rfl
  | cons s rest ih => simp [SlotRole.assign, List.range'_succ, ih]

theorem length_assign (kind : Kind) (bare : Bool) (index : Nat) (slots : List (Option Draft)) :
    (SlotRole.assign kind bare index slots).length = slots.length := by
  simpa using congrArg List.length (map_snd_assign kind bare index slots)

theorem areBare_ofList (slots : List (Option Draft)) :
    ((Slots.ofList slots).map id Piece.token).areBare = areBare slots := by
  match slots with
  | [] | none :: _ => rfl
  | some (.token (.run ..)) :: _ | some (.token (.missing _)) :: _ | some (.node ..) :: _ => rfl

theorem kind_element (d : Draft) : d.element.kind = d.kind := by
  match d with
  | .token (.run ..) | .token (.missing _) | .node .. => rfl

theorem toList_slots (slots : List (Option Draft)) :
    ((Slots.ofList slots).map id Piece.token).toList = slots.map (Option.map element) := by
  induction slots with
  | nil => rfl
  | cons s rest ih => cases s <;> simp [Slots.ofList, Slots.map, Slots.toList, ih, element]

theorem lastKind?_items (items : List Draft) :
    ((Slots.ofList (items.map some)).map id Piece.token).lastKind? = lastKind? items := by
  rw [Slots.lastKind?, toList_slots, List.map_map, List.getLast?_map, lastKind?]
  cases items.getLast? <;> simp [kind_element]

/-- The text of pieces starts where that of their first lexeme does. -/
theorem textStart_pieces (ps : List Piece) :
    Token.textStart position next (ps.map Piece.token)
      = ((ps.flatMap Piece.lexemes).head?.map (position + ·.leadingWidth)).getD next := by
  induction ps with
  | nil => rfl
  | cons p ps ih =>
    cases p with
    | missing kind => exact ih
    | run kind first more =>
      simp [Token.textStart, Token.located, Piece.token, Piece.lexemes, Token.isPresent,
        Token.isMissing, Token.leadingWidth, Token.leading, Piece.totalWidth_gaps,
        Lexeme.leadingWidth]

theorem textStart_eq (row : List (SlotRole × Option Draft)) :
    textStart position next row
      = ((lexemesOf (row.map Prod.snd)).head?.map (position + ·.leadingWidth)).getD next := by
  rw [textStart, textStart_pieces, lexemesOf_eq]

theorem defects_append (a b : List (SlotRole × Option Draft)) :
    defects text position next (a ++ b)
      = defects text position
          (textStart (position + Lexeme.widthOf (lexemesOf (a.map Prod.snd))) next b) a
        ++ defects text (position + Lexeme.widthOf (lexemesOf (a.map Prod.snd))) next b := by
  have hstart (position : Nat) (a : List (SlotRole × Option Draft)) :
      textStart position next (a ++ b) = textStart position
        (textStart (position + Lexeme.widthOf (lexemesOf (a.map Prod.snd))) next b) a := by
    simp only [textStart_eq, List.map_append, lexemesOf_append]
    cases h : lexemesOf (a.map Prod.snd) <;> simp [Lexeme.widthOf]
  induction a generalizing position with
  | nil => simp [defects, Lexeme.widthOf]
  | cons x rest ih =>
    obtain ⟨role, slot⟩ := x
    cases slot with
    | none =>
      simp only [List.cons_append, defects, ih, hstart, List.map_cons, lexemesOf_none,
        List.append_assoc]
    | some d =>
      simp only [List.cons_append, defects, ih, hstart, List.map_cons, lexemesOf_some,
        fullWidth_element, Lexeme.widthOf_append, List.append_assoc, Nat.add_assoc]

/-- A row of one element. -/
theorem defects_one (role : SlotRole) (d : Draft) :
    defects text position next [(role, some d)] = d.element.defects text role position next := by
  simp [defects, textStart_eq]

/-- A node has the defects of its slots, and those of its kind in front of them. -/
theorem defects_composite {kind : Kind} (hk : kind ≠ .list) (role : SlotRole)
    (slots : List (Option Draft)) :
    (composite kind slots).element.defects text role position next
      = kind.defects role (textStart position next (withRoles kind slots))
        ++ defects text position next (withRoles kind slots) := by
  have hfst := map_fst_assign kind (areBare slots) 0 slots
  rw [← length_assign kind (areBare slots) 0 slots] at hfst
  have hslots := @slots_defects text position next _ 0 (withRoles kind slots) hfst
  have hstart := @slots_textStart position next (withRoles kind slots)
  have hroles : role.within kind (areBare slots) = SlotRole.ofSlot kind (areBare slots) :=
    funext fun _ => if_neg hk
  have htrailing (s : Slots Kind Token) : s.trailingDefects kind next = [] :=
    if_neg fun h => hk h.1
  rw [map_snd_withRoles] at hslots hstart
  show Tree.defects text role position next (.node kind ((Slots.ofList slots).map id Piece.token)) = _
  rw [Tree.defects, hstart, areBare_ofList, hroles, hslots, htrailing, List.append_nil]

/-- A list has the defects of its items, and one more behind them if it ends with a comma. -/
theorem defects_list (role : SlotRole) (items : List Draft) :
    (composite .list (items.map some)).element.defects text role position next
      = defects text position next (items.map fun d => (role.inner, some d))
        ++ if lastKind? items = some .comma then [(.unexpectedToken, next)] else [] := by
  have hslots := @slots_defects text position next (fun _ => role.inner) 0
    (items.map fun d => (role.inner, some d)) (by simp [Function.comp_def])
  have hroles (bare : Bool) : role.within .list bare = fun _ => role.inner :=
    funext fun _ => if_pos rfl
  have hown (start : Nat) : Kind.list.defects role start = [] :=
    if_neg (by simp [Kind.isTrigger])
  rw [List.map_map] at hslots
  show Tree.defects text role position next
    (.node .list ((Slots.ofList (items.map some)).map id Piece.token)) = _
  rw [Tree.defects, hown, hroles, List.nil_append, Slots.trailingDefects, lastKind?_items]
  simp only [true_and]
  rw [← hslots]
  rfl

/-- Whatever an error holds is reported with it. -/
theorem defects_singles (bare : Bool) (index position : Nat) (ls : List Lexeme) :
    defects text position next
      (SlotRole.assign .error bare index (ls.map fun l => some (single l.kind l))) = [] := by
  induction ls generalizing index position with
  | nil => rfl
  | cons l ls ih => exact ih (index + 1) _

end Draft

/-! ## Readings -/

/-- The cursor stands in a text, at its offset. -/
def Cursor.StandsIn (c : Cursor) (text : Text) : Prop :=
  ∃ before after, text = before ++ Lexeme.textOf c.ahead ++ after ∧ Text.width before = c.offset

namespace Cursor.StandsIn

variable {c c' : Cursor} {text : Text} {ls : List Lexeme}

theorem passes (h : c.StandsIn text) (hp : c.Passes ls c') : c'.StandsIn text := by
  obtain ⟨before, after, htext, hwidth⟩ := h
  refine ⟨before ++ Lexeme.textOf ls, after, ?_, ?_⟩
  · rw [htext, hp.ahead, Lexeme.textOf_append]
    simp
  · rw [Text.width_append, hwidth, Lexeme.width_textOf, hp.offset]

/-- The text of the next lexeme stands where the cursor says. -/
theorem slice {l : Lexeme} (h : c.StandsIn text) (hp : c.Passes (l :: ls) c') :
    Text.slice? text (Span.ofWidth (c.offset + l.leadingWidth) l.width) = some l.text := by
  obtain ⟨before, after, htext, hwidth⟩ := h
  have hslice := Text.slice?_append (before ++ Gap.textOf l.leading) l.text
    (Gap.textOf l.trailing ++ Lexeme.textOf (ls ++ c'.ahead) ++ after)
  rw [htext, hp.ahead]
  simpa [Lexeme.textOf, Lexeme.fullText, Lexeme.leadingWidth, Lexeme.width, hwidth] using hslice

end Cursor.StandsIn

/-- What is read starts where the cursor stands. -/
theorem Cursor.Passes.start {c c' : Cursor} {ls : List Lexeme} (h : c.Passes ls c') :
    (ls.head?.map (c.offset + ·.leadingWidth)).getD c'.span.start = c.span.start := by
  cases ls with
  | nil => rw [h.stand]; rfl
  | cons l ls => simp [span, h.next_eq]

theorem Cursor.Passes.start_trivia {c c' : Cursor} {l : Lexeme} {ls : List Lexeme}
    (h : c.Passes (l :: ls) c') :
    c.offset + Trivia.totalWidth (l.leading.map Gap.trivia) = c.span.start := by
  rw [← h.start, Piece.totalWidth_gaps]
  rfl

namespace Reading

variable {c c' : Cursor} {text : Text} {slots : List (SlotRole × Option Draft)}
  {r : List Diagnostic}

theorem textStart (h : Reading c slots c' r) :
    Draft.textStart c.offset c'.span.start slots = c.span.start := by
  rw [Draft.textStart_eq, h.passes.start]

/-- A slot in a role holds a run that the role has nothing against. -/
theorem defects_run {role : SlotRole} {kind : Kind} {first : Lexeme} {more : List Lexeme} {next : Nat}
    (hs : Text.slice? text (Span.ofWidth (c.offset + first.leadingWidth) first.width)
      = some first.text) (ha : role.Admits kind first more) :
    Draft.defects text c.offset next [(role, some (.token (.run kind first more)))] = [] := by
  rw [Draft.defects_one]
  show Token.defects text role c.offset next (Piece.token (.run kind first more)) = []
  cases role with
  | argument => exact if_pos ha
  | loopBehavior =>
    obtain ⟨hword, rfl⟩ := ha
    refine if_pos ?_
    have hspan : Span.ofWidth (c.offset + Trivia.totalWidth (first.leading.map Gap.trivia))
        (Text.width (Piece.joinedText first []))
        = Span.ofWidth (c.offset + first.leadingWidth) first.width := by
      rw [Piece.totalWidth_gaps]
      rfl
    rw [hspan, hs]
    exact hword
  | covered => exact ha.elim
  | plain | item | needed => rfl

/-- A reading reports the defects of what it reads, in the same order. -/
theorem sites (h : Reading c slots c' r) (ht : c.StandsIn text) :
    r.map Diagnostic.site = Draft.defects text c.offset c'.span.start slots := by
  induction h with
  | nil => rfl
  | append h₁ h₂ ih₁ ih₂ =>
    rw [List.map_append, ih₁ ht, ih₂ (ht.passes h₁.passes), Draft.defects_append,
      ← h₁.passes.offset, h₂.textStart]
  | @empty role c hr => simp [Draft.defects, hr]
  | @needed c p hp =>
    simp [Draft.defects, Draft.textStart_eq, Diagnostic.site, Problem.reportAt, hp, Cursor.gap,
      Span.emptyAt]
  | run _ hc ha => exact (defects_run (ht.slice hc) ha).symm
  | @unknownArgument c c' l hc hn h₁ h₂ =>
    have hcomma : l.kind ≠ .comma := fun hcomma => by rw [hcomma] at hn; cases hn
    have hknown : ¬ (l.kind = .comma ∨ l.kind = .handledKeyword ∨ l.kind = .setHandledKeyword) := by
      simp [hcomma, h₁, h₂]
    rw [Draft.defects_one]
    refine Eq.trans ?_ (if_neg hknown).symm
    rw [hc.start_trivia]
    rfl
  | @unknownLoop c c' l hc _ hw =>
    have hslice := ht.slice hc
    rw [Draft.defects_one]
    refine Eq.trans ?_ (if_neg ?_).symm
    · rw [hc.start_trivia]
      rfl
    · rw [Piece.totalWidth_gaps]
      show ¬ (Text.slice? text (Span.ofWidth (c.offset + l.leadingWidth) l.width)).any _ = true
      rw [hslice]
      simp [hw]
  | @lacking role kind p c _ hp hr =>
    rw [Draft.defects_one]
    refine Eq.trans ?_ (if_neg hr).symm
    simp [Diagnostic.site, Problem.reportAt, hp, Cursor.gap, Span.emptyAt]
  | covered c hk => rfl
  | @node role c c' kind slots r h hk hl hs hr ih =>
    have hkind : kind ≠ .list ∧ kind ≠ .error := by simpa [Kind.isLoose] using hl
    have hown (start : Nat) : kind.defects role start = [] := by
      refine if_neg ?_
      rintro (herror | ⟨rfl, htrigger⟩)
      · exact hkind.2 herror
      · exact absurd (hr.symm.trans htrigger) (by decide)
    rw [Draft.defects_one, Draft.defects_composite hkind.1, hown, ih ht, List.nil_append]
  | @misplaced c c' kind l rest r h hk hs ih =>
    have hkind : kind ≠ .list := by rintro rfl; cases hk
    rw [Draft.defects_one, Draft.defects_composite hkind, h.textStart, List.map_cons, ih ht]
    have hown : kind.defects .item c.span.start = [(.unexpectedToken, c.span.start)] :=
      if_pos (.inr ⟨rfl, hk⟩)
    rw [hown]
    rfl
  | @list role c c' r items hn h hr hc ih =>
    rw [Draft.defects_one, Draft.defects_list, if_neg hc, ih ht, List.append_nil]
  | @trailing role c c' r items listed hn h hr hc ih =>
    rw [Draft.defects_one, Draft.defects_list, if_pos hc, List.map_append, ih ht]
    rfl
  | @error role c c' l more hc hr =>
    have hstart : Draft.textStart c.offset c'.span.start
        (Draft.withRoles .error ((l :: more).map fun l => some (.single l.kind l)))
        = c.span.start := by
      rw [Draft.textStart_eq, Draft.map_snd_withRoles, Draft.lexemesOf_singles, hc.start]
    have hsingles : Draft.defects text c.offset c'.span.start
        (Draft.withRoles .error ((l :: more).map fun l => some (.single l.kind l))) = [] :=
      Draft.defects_singles ..
    rw [Draft.defects_one, Draft.defects_composite (by decide), hstart, hsingles]
    rfl

end Reading

/-! ## Whole texts -/

/-- The reports on the structure of a text are the defects of its tree, in the same order. -/
theorem sites_draftOf (text : Text) :
    (draftOf (Lexemes.scan text)).reports.map Diagnostic.site = (parse text).tree.defects := by
  obtain ⟨items, hvalue, hputs, -, hfinal⟩ := draftOf_reading (Lexemes.scan text)
  have hnil := ahead_draftOf text
  have hstands : (Cursor.ofLexemes (Lexemes.scan text)).StandsIn text := by
    refine ⟨[], Lexeme.textOf [(Lexemes.scan text).final], ?_, rfl⟩
    rw [List.nil_append, ← Lexeme.textOf_append]
    exact (Lexemes.textOf_scan text).symm
  have hstart : (draftOf (Lexemes.scan text)).rest.span.start
      = (draftOf (Lexemes.scan text)).rest.offset + (Lexemes.scan text).final.leadingWidth := by
    simp [Cursor.span, Cursor.next, hnil, hfinal]
  have hoffset := hputs.reading.passes.offset
  have htext : (parse text).tree.text = text := rfl
  have hroot : (parse text).tree.root.element
      = (Draft.composite .document (draftOf (Lexemes.scan text)).value).element := rfl
  have hroles (final : Option Draft) : Draft.withRoles .document [Draft.list items, final]
      = [(.item, Draft.list items)] ++ [(.plain, final)] := rfl
  have hown (start : Nat) : Kind.document.defects .plain start = [] := rfl
  have hrest (position next : Nat) : Draft.defects text position next
      [(.plain, some (.single .eof (Lexemes.scan text).final))] = [] := rfl
  rw [SyntaxTree.defects, htext, hroot, hvalue, Draft.defects_composite (by decide), hroles, hown,
    List.nil_append, Draft.defects_append, hrest, List.append_nil, hputs.reading.sites hstands]
  rw [Draft.textStart_eq]
  simp only [Cursor.ofLexemes] at hoffset ⊢
  rw [← hoffset, hstart]
  rfl

/-- What a parse reports is what its scan reports, and the defects of its tree: each of them once,
where it is, and nothing else. -/
theorem parse_inventory (text : Text) :
    ((parse text).diagnostics.map Diagnostic.site).Perm
      ((Lexemes.scan text).reports.map Diagnostic.site ++ (parse text).tree.defects) := by
  rw [← sites_draftOf, ← List.map_append]
  exact (Diagnostic.sorted_perm _).map _

end Stylesheet
