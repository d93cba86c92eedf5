import Stylesheet.Proofs.Spelling

/-!
# Where values end

A value that does not open with a brace is a run of lexemes up to the first one that stops it,
whatever stands in between. A semicolon, a closing brace and the end of the text stop every value;
the value of a rule or of a transition, which may be qualified, stops at the qualifier as well. What
follows is read from there on: a qualifier, if there is one, and then a semicolon.

Results:
* `Run.valueLength_stops`: a value ends at the first lexeme that stops it.
* `value_lays`, `qualifier_lays`: a value and a qualifier, where they stand in a text.
* `values_end`: the values of a text, and what follows them.
-/
namespace Stylesheet

/-! ## Values and their surroundings -/

namespace Lexemes

variable (ls : Lexemes)

/-- Whether a qualifier starts at an index: `important`, or `!` with `important` behind it. -/
def QualifiesAt (i : Nat) : Prop :=
  Lexeme.kindAt ls.all i = .importantKeyword ∨
    Lexeme.kindAt ls.all i = .exclamationMark ∧ Lexeme.kindAt ls.all (i + 1) = .importantKeyword

/-- Whether the lexeme at an index stops a plain value, one that may be qualified or not. -/
def StopsAt (qualified : Bool) (i : Nat) : Prop :=
  Lexeme.kindAt ls.all i ∈ [Kind.eof, .semicolon, .rightBrace] ∨ qualified ∧ ls.QualifiesAt i

/-- The index behind the braces that open at an index: behind the closing brace, or the end of the
text. -/
def indexBehind (i : Nat) : Nat :=
  ((Lexeme.partner? ls.all i).map (· + 1)).getD ls.body.length

/-- A value whose first lexeme is the one at index `i`, and the index behind it. A plain value is
all that stands in front of the first lexeme that stops it, and missing if that is nothing. -/
inductive IsValue (qualified : Bool) (i : Nat) : Tree Kind Mark → Nat → Prop
  | plain {j : Nat} (hopening : Lexeme.kindAt ls.all i ≠ .leftBrace) (hle : i ≤ j)
      (hstop : ls.StopsAt qualified j) (hfirst : ∀ k, i ≤ k → k < j → ¬ls.StopsAt qualified k) :
      IsValue qualified i (.node .propertyValue
        (.ofList [some (.token (.ofRun .propertyValueToken i (j - i)))])) j
  | braced (hopening : Lexeme.kindAt ls.all i = .leftBrace) :
      IsValue qualified i (.node .propertyValueWithBraces
        (.ofList [some (.token (.run .leftBrace i 0)),
          some (.token (.ofRun .propertyValueToken (i + 1) (ls.countInside i))),
          some (.token (.closing (Lexeme.partner? ls.all i)))])) (ls.indexBehind i)

/-- What a qualifier's slot holds at an index, and the index behind it. -/
inductive IsQualifier (i : Nat) : Option (Tree Kind Mark) → Nat → Prop
  | word (h : Lexeme.kindAt ls.all i = .importantKeyword) :
      IsQualifier i (some (.token (.run .importantKeyword i 0))) (i + 1)
  | marked (h : Lexeme.kindAt ls.all i = .exclamationMark)
      (hword : Lexeme.kindAt ls.all (i + 1) = .importantKeyword) :
      IsQualifier i (some (.token (.run .importantKeyword i 1))) (i + 2)
  | absent (h : ¬ls.QualifiesAt i) : IsQualifier i none i

/-- The mark of the semicolon at an index, if that is one. -/
def semicolonAt? (i : Nat) : Option Mark :=
  if Lexeme.kindAt ls.all i = .semicolon then some (.run .semicolon i 0) else none

/-- The index of the first lexeme behind some slots of a node that starts at an index. -/
def indexAfter (index : Nat) (front : List (Option (Tree Kind Mark))) : Nat :=
  index + (front.flatMap Mark.indicesBelow).length

/-- The slots of a declaration: some in front of its value, then the value, its qualifier and a
semicolon, each where the one before it ends. -/
inductive EndsDeclaration (index slot : Nat) : Slots Kind Mark → Prop
  | intro {front : List (Option (Tree Kind Mark))} {value : Tree Kind Mark}
      {mark : Option (Tree Kind Mark)} {j k : Nat} (hslot : front.length = slot)
      (hvalue : ls.IsValue true (indexAfter index front) value j)
      (hmark : ls.IsQualifier j mark k) :
      EndsDeclaration index slot
        (.ofList (front ++ [some value, mark, some (.token ((ls.semicolonAt? k).getD (.missing .semicolon)))]))

/-- The slots of an action: some in front of its value, then the value, which cannot be qualified,
and a semicolon if one comes next. -/
inductive EndsAction (index slot : Nat) : Slots Kind Mark → Prop
  | intro {front : List (Option (Tree Kind Mark))} {value : Tree Kind Mark}
      {j : Nat} (hslot : front.length = slot)
      (hvalue : ls.IsValue false (indexAfter index front) value j) :
      EndsAction index slot (.ofList (front ++ [some value, (ls.semicolonAt? j).map .token]))

/-- Whether a node that has a value at one of its slots has it where it should be. -/
def EndsValues (index : Nat) (slots : Slots Kind Mark) : Kind → Prop
  | .rule => ls.EndsDeclaration index 2 slots
  | .transition => ls.EndsDeclaration index 3 slots
  | .playStoryboardTriggerAction => ls.EndsAction index 2 slots
  | .playSfxTriggerAction => ls.EndsAction index 1 slots
  | .setTriggerAction => ls.EndsAction index 3 slots
  | _ => True

end Lexemes

/-! ## The lexemes of a value -/

namespace Run

variable {ls : Lexemes} {context : Context}

/-- Where there is a lexeme it ends a value if it stops it. -/
theorem endsValue_iff (hf : ls.final.kind = .eof) (hc : context ≠ .evaluation) (first : Bool) {i : Nat} :
    endsValue context first (Lexeme.kindAt ls.all i) (ls.body.drop (i + 1))
      ↔ ls.StopsAt (context = .declaration) i := by
  have hnext : Lexeme.kindAt (ls.body.drop (i + 1)) 0 = Lexeme.kindAt ls.all (i + 1) := by
    rw [Lexemes.kindAt_all hf, Lexeme.kindAt, Lexeme.kindAt, List.getElem?_drop, Nat.add_zero]
  unfold endsValue Lexemes.StopsAt Lexemes.QualifiesAt
  rw [hnext]
  cases context with
  | evaluation => exact absurd rfl hc
  | declaration => split <;> simp_all
  | action => split <;> simp_all

/-- A value ends at the first lexeme that stops it. -/
theorem valueLength_stops (hf : ls.final.kind = .eof) (hc : context ≠ .evaluation) (first : Bool)
    (i : Nat) :
    ls.StopsAt (context = .declaration) (i + valueLength context first (ls.body.drop i)) ∧
      ∀ k, i ≤ k → k < i + valueLength context first (ls.body.drop i) →
        ¬ls.StopsAt (context = .declaration) k := by
  -- By induction along the value: the index moves on with what is left of the text.
  generalize hrest : ls.body.drop i = rest
  fun_induction valueLength context first rest generalizing i with
  | case1 first =>
    rcases Lexemes.drop_cases hf i with ⟨-, hend⟩ | ⟨l, -, hcons, -⟩
    · exact ⟨.inl (by simp [hend]), fun k hle hlt => absurd hle (Nat.not_le.mpr hlt)⟩
    · rw [hrest] at hcons
      cases hcons
  | case2 first l rest hends =>
    rcases Lexemes.drop_cases hf i with ⟨hle, -⟩ | ⟨l, -, hcons, hk⟩
    · rw [List.drop_eq_nil_of_le hle] at hrest
      cases hrest
    · obtain ⟨rfl, rfl⟩ := List.cons.inj (hrest.symm.trans hcons)
      rw [hk, endsValue_iff hf hc] at hends
      exact ⟨hends, fun k hle hlt => absurd hle (Nat.not_le.mpr hlt)⟩
  | case3 first l rest hends ih =>
    rcases Lexemes.drop_cases hf i with ⟨hle, -⟩ | ⟨l, -, hcons, hk⟩
    · rw [List.drop_eq_nil_of_le hle] at hrest
      cases hrest
    · obtain ⟨rfl, rfl⟩ := List.cons.inj (hrest.symm.trans hcons)
      rw [hk, endsValue_iff hf hc] at hends
      obtain ⟨hstop, hfirst⟩ := ih (i + 1) rfl
      rw [Nat.add_assoc, Nat.add_comm 1] at hstop
      refine ⟨hstop, fun k hle hlt => ?_⟩
      rcases Nat.eq_or_lt_of_le hle with rfl | hgt
      · exact hends
      · exact hfirst k hgt (by omega)

/-- Braces that open are closed where their content ends, or the text ends first. -/
theorem bracedLength_closes (hf : ls.final.kind = .eof) {i n : Nat}
    (h : Lexeme.kindAt ls.all i = .leftBrace) (hn : n = bracedLength 0 (ls.body.drop (i + 1))) :
    Lexeme.partner? ls.all i = some (i + 1 + n) ∧ Lexeme.kindAt ls.all (i + 1 + n) = .rightBrace ∨
      Lexeme.partner? ls.all i = none ∧ ls.body.length = i + 1 + n := by
  have hfinal : ls.final.isBrace = false := by rw [Lexeme.isBrace, hf]; rfl
  obtain ⟨l, hlt, hcons, hk⟩ := (Lexemes.drop_cases hf i).resolve_left
    fun hend => by simp [h] at hend
  have hbody : ls.body = ls.body.take i ++ l :: ls.body.drop (i + 1) := by
    rw [← hcons, List.take_append_drop]
  have hlength : (ls.body.take i).length = i := List.length_take_of_le (Nat.le_of_lt hlt)
  -- What stands in front of an opening brace has no say in where it is matched.
  have hpartner : Lexeme.partner? ls.all i
      = if n < (ls.body.drop (i + 1)).length then some (i + 1 + n) else none := by
    have happend := @Lexeme.partner?_append (ls.body.take i) (ls.body.drop (i + 1)) l (hk.trans h)
    rwa [← hbody, hlength, ← hn, ← Lexeme.partner?_concat hfinal] at happend
  have hle := Production.bracedLength_le 0 (ls.body.drop (i + 1))
  rw [← hn, List.length_drop] at hle
  rw [hpartner, List.length_drop]
  split
  · next hin =>
    refine .inl ⟨rfl, ?_⟩
    rcases outside_eq 0 (ls.body.drop (i + 1)) with hnil | ⟨r, rest, hclosing, hr⟩
    · rw [outside, ← hn, List.drop_drop, List.drop_eq_nil_iff] at hnil
      omega
    · rw [outside, ← hn, List.drop_drop] at hclosing
      rw [Lexemes.kindAt_all hf, Lexeme.kindAt, ← List.head?_drop, hclosing]
      exact hr
  · next hout => exact .inr ⟨rfl, by omega⟩

end Run

/-! ## Reading values -/

namespace Laid

variable {i : Nat}

/-- A token in its slot. -/
theorem token (i : Nat) (p : Piece) :
    Laid i [some (.token p)] [some (.token (.ofRun p.kind i p.lexemes.length))]
      (i + p.lexemes.length) := by
  refine ⟨by simp [Draft.lexemes_token], ?_⟩
  rw [← Tree.marked_token]
  rfl

end Laid

namespace Production

variable {ls : Lexemes}

theorem contentOf_lays {i count : Nat} (h : count ≤ (ls.cursor i).ahead.length) :
    (bracedValue.contentOf count (ls.cursor i)).Lays ls i
      [some (bracedValue.contentOf count (ls.cursor i)).value]
      [some (.token (.ofRun .propertyValueToken i count))] (i + count) := by
  obtain ⟨p, hvalue, hkind, hlexemes, hpass⟩ := contentOf_token h
  have hlength : p.lexemes.length = count := by rw [hlexemes, List.length_take_of_le h]
  have hrest := Lexemes.eq_cursor hpass
  have htoken := Laid.token i p
  rw [hkind, hlength] at htoken
  rw [hlength] at hrest
  exact ⟨hvalue ▸ htoken, hrest⟩

theorem plainValue_lays (hf : ls.final.kind = .eof) {context : Run.Context}
    (hc : context ≠ .evaluation) {i : Nat} (h : Lexeme.kindAt ls.all i ≠ .leftBrace) :
    ∃ t j, ls.IsValue (context = .declaration) i t j ∧ (value context (ls.cursor i)).Lays ls i
      [some (value context (ls.cursor i)).value] [some t] j := by
  have hcontent := contentOf_lays (valueLength_le context true (ls.cursor i).ahead)
  obtain ⟨hstop, hfirst⟩ := Run.valueLength_stops hf hc true i
  have hvalue := Lexemes.IsValue.plain h (Nat.le_add_right ..) hstop hfirst
  rw [Nat.add_sub_cancel_left] at hvalue
  rw [value_plain (by simp [Lexemes.kind_cursor hf, h])]
  exact ⟨_, _, hvalue, hcontent.toLaid.only _, hcontent.rest⟩

/-- The closing brace behind the content of a value, or the lack of one. -/
theorem expectClosing_lays (hf : ls.final.kind = .eof) {i n : Nat}
    (h : Lexeme.kindAt ls.all i = .leftBrace)
    (hn : n = Run.bracedLength 0 (ls.cursor (i + 1)).ahead) :
    ls.countInside i = n ∧
      (expect .rightBrace (ls.cursor (i + 1 + n))).Lays ls (i + 1 + n)
        [some (expect .rightBrace (ls.cursor (i + 1 + n))).value]
        [some (.token (.closing (Lexeme.partner? ls.all i)))] (ls.indexBehind i) := by
  rw [Lexemes.countInside, Lexemes.indexBehind]
  rcases Run.bracedLength_closes hf h hn with ⟨hpartner, hclosing⟩ | ⟨hpartner, hlength⟩
  · rw [hpartner]
    exact ⟨Nat.add_sub_cancel_left .., expect_lays hf hclosing (by decide)⟩
  · have hend : Lexeme.kindAt ls.all (i + 1 + n) = .eof := by
      rw [Lexemes.kindAt_all hf, Lexeme.kindAt, List.getElem?_eq_none (Nat.le_of_eq hlength)]
      rfl
    rw [hpartner, Option.map_none, Option.getD_none, hlength,
      expect_of_ne (by rw [Lexemes.kind_cursor hf, hend]; decide)]
    exact ⟨Nat.add_sub_cancel_left .., absent_lays .rightBrace⟩

theorem bracedValue_lays (hf : ls.final.kind = .eof) {i : Nat}
    (h : Lexeme.kindAt ls.all i = .leftBrace) (qualified : Bool) :
    ∃ t j, ls.IsValue qualified i t j ∧ (bracedValue (ls.cursor i)).Lays ls i
      [some (bracedValue (ls.cursor i)).value] [some t] j := by
  obtain ⟨n, hn⟩ : ∃ n, n = Run.bracedLength 0 (ls.cursor (i + 1)).ahead := ⟨_, rfl⟩
  have hopening := take_lays hf (i := i) (by simp [h])
  have hcontent := contentOf_lays (hn ▸ bracedLength_le ..)
  obtain ⟨hcount, hclosing⟩ := expectClosing_lays hf h hn
  have hvalue : ls.IsValue qualified i _ _ := .braced h
  rw [h] at hopening
  rw [hcount] at hvalue
  rw [← hcontent.rest] at hclosing
  rw [← hopening.rest] at hn hcontent hclosing
  subst hn
  rw [bracedValue_braced (by rw [Lexemes.kind_cursor hf, h])]
  have hrow := hopening.toLaid.cons <| hcontent.toLaid.cons <| hclosing.toLaid.cons <| .nil _
  exact ⟨_, _, hvalue, hrow.only _, hclosing.rest⟩

theorem value_lays (hf : ls.final.kind = .eof) {context : Run.Context} (hc : context ≠ .evaluation)
    (i : Nat) :
    ∃ t j, ls.IsValue (context = .declaration) i t j ∧ (value context (ls.cursor i)).Lays ls i
      [some (value context (ls.cursor i)).value] [some t] j := by
  by_cases h : Lexeme.kindAt ls.all i = .leftBrace
  · rw [value_braced (by rw [Lexemes.kind_cursor hf, h]) hc]
    exact bracedValue_lays hf h _
  · exact plainValue_lays hf hc h

/-! ## What follows a value -/

theorem qualifier_lays (hf : ls.final.kind = .eof) (i : Nat) :
    ∃ mark j, ls.IsQualifier i mark j ∧
      (qualifier (ls.cursor i)).Lays ls i [(qualifier (ls.cursor i)).value] [mark] j := by
  have hkind := Lexemes.kind_cursor hf i
  have hnext := Lexemes.kindAt_cursor hf i 1
  by_cases hi : Lexeme.kindAt ls.all i = .importantKeyword
  · have hx : qualifier (ls.cursor i) = (some <$> take) (ls.cursor i) := by
      simp [Parsing.qualifier, look, hkind, hi]
    have htake := take_lays hf (i := i) (by simp [hi])
    rw [hi] at htake
    rw [hx, map_apply]
    exact ⟨_, _, .word hi, htake.toLaid, htake.rest⟩
  by_cases hm : Lexeme.kindAt ls.all i = .exclamationMark
  · have hx : qualifier (ls.cursor i)
        = optional (decide ((ls.cursor i).kindAt 1 = .importantKeyword))
          (takeRun .importantKeyword 2) (ls.cursor i) := by
      simp [Parsing.qualifier, look, holds, hkind, hm]
    by_cases hw : Lexeme.kindAt ls.all (i + 1) = .importantKeyword
    · obtain ⟨l, m, rest, hahead, -, -⟩ :=
        Cursor.exists_ahead_two (c := ls.cursor i) (by simp [hnext, hw])
      rw [hx, hnext, decide_eq_true hw, optional_true, @takeRun_apply (ls.cursor i)
        .importantKeyword 2 l [m] (by simp [hahead]) (by simp [hahead])]
      exact ⟨_, _, .marked hm hw, Laid.token i _, Lexemes.advance_cursor ..⟩
    · have hno : ¬ls.QualifiesAt i := fun h => h.elim hi fun h => hw h.2
      rw [hx, hnext, decide_eq_false hw, optional_false]
      exact ⟨_, _, .absent hno, ⟨rfl, rfl⟩, rfl⟩
  · have hno : ¬ls.QualifiesAt i := fun h => h.elim hi fun h => hm h.1
    have hx : qualifier (ls.cursor i) = ⟨none, ls.cursor i, [], []⟩ := by
      simp only [Parsing.qualifier, look_eq, look, bind_apply, hkind]
      rfl
    rw [hx]
    exact ⟨_, _, .absent hno, ⟨rfl, rfl⟩, rfl⟩

theorem expectSemicolon_laid (hf : ls.final.kind = .eof) (i : Nat) :
    ∃ j, Laid i [some (expect .semicolon (ls.cursor i)).value]
      [some (.token ((ls.semicolonAt? i).getD (.missing .semicolon)))] j := by
  by_cases h : Lexeme.kindAt ls.all i = .semicolon
  · rw [Lexemes.semicolonAt?, if_pos h]
    exact ⟨_, (expect_lays hf h (by decide)).toLaid⟩
  · rw [Lexemes.semicolonAt?, if_neg h, expect_of_ne (by rwa [Lexemes.kind_cursor hf])]
    exact ⟨_, (absent_lays .semicolon).toLaid⟩

theorem acceptSemicolon_laid (hf : ls.final.kind = .eof) (i : Nat) :
    ∃ j, Laid i [(accept .semicolon (ls.cursor i)).value] [(ls.semicolonAt? i).map .token] j := by
  have hx : accept .semicolon (ls.cursor i)
      = optional (decide ((ls.cursor i).kind = .semicolon)) take (ls.cursor i) := rfl
  rw [hx, Lexemes.kind_cursor hf, Lexemes.semicolonAt?]
  by_cases h : Lexeme.kindAt ls.all i = .semicolon
  · have htake := take_lays hf (i := i) (by simp [h])
    rw [h] at htake
    rw [if_pos h, decide_eq_true h, optional_true]
    exact ⟨_, htake.toLaid⟩
  · rw [if_neg h, decide_eq_false h, optional_false]
    exact ⟨_, rfl, rfl⟩

end Production

/-! ## Whole nodes -/

namespace Draft

/-- The slots in front of a value hold as many lexemes as their marks say. -/
theorem indexAfter_markedRow (index : Nat) (front : List (Option Draft)) :
    Lexemes.indexAfter index (markedRow index front) = index + (lexemesOf front).length := by
  have hcount (i : Nat) (slots : List (Option Draft)) :
      ((markedRow i slots).flatMap Mark.indicesBelow).length = (lexemesOf slots).length := by
    induction slots generalizing i with
    | nil => rfl
    | cons slot rest ih =>
      have hsplit := lexemesOf_append [slot] rest
      rw [List.singleton_append] at hsplit
      rw [markedRow, List.flatMap_cons, List.length_append, ih, indicesBelow_markedSlot,
        List.length_range', hsplit, List.length_append]
  rw [Lexemes.indexAfter, hcount]

end Draft

namespace Production

variable {ls : Lexemes} {index : Nat} {front : List (Option Draft)} {c : Cursor}

/-- A declaration, behind what stands in front of its value. -/
theorem declaration_ends (hf : ls.final.kind = .eof) (h : Grown (ls.cursor index) front c) :
    ls.EndsDeclaration index front.length (((Slots.ofList (front ++
      [some (value .declaration c).value, (qualifier (value .declaration c).rest).value,
        some (expect .semicolon (qualifier (value .declaration c).rest).rest).value])).map
          id Piece.shape).marked index) := by
  obtain rfl := Lexemes.eq_cursor h.passes
  obtain ⟨t, j, hvalue, hread⟩ := @value_lays ls hf .declaration (by decide)
    (index + (Draft.lexemesOf front).length)
  obtain ⟨mark, k, hmark, hqualifier⟩ := qualifier_lays hf j
  obtain ⟨_, hsemicolon⟩ := expectSemicolon_laid hf k
  rw [← hqualifier.rest] at hsemicolon
  rw [← hread.rest] at hqualifier hsemicolon
  have hrow := hread.toLaid.cons <| hqualifier.toLaid.cons <| hsemicolon.cons <| .nil _
  rw [Draft.marked_ofList, Draft.markedRow_append, hrow.marks]
  rw [← Draft.indexAfter_markedRow] at hvalue
  exact .intro (Draft.length_markedRow ..) hvalue hmark

/-- An action, behind what stands in front of its value. -/
theorem action_ends (hf : ls.final.kind = .eof) (h : Grown (ls.cursor index) front c) :
    ls.EndsAction index front.length (((Slots.ofList (front ++
      [some (value .action c).value, (accept .semicolon (value .action c).rest).value])).map
          id Piece.shape).marked index) := by
  obtain rfl := Lexemes.eq_cursor h.passes
  obtain ⟨t, j, hvalue, hread⟩ := @value_lays ls hf .action (by decide)
    (index + (Draft.lexemesOf front).length)
  obtain ⟨_, hsemicolon⟩ := acceptSemicolon_laid hf j
  rw [← hread.rest] at hsemicolon
  have hrow := hread.toLaid.cons <| hsemicolon.cons <| .nil _
  rw [Draft.marked_ofList, Draft.markedRow_append, hrow.marks]
  rw [← Draft.indexAfter_markedRow] at hvalue
  exact .intro (Draft.length_markedRow ..) hvalue

theorem rule_ends (hf : ls.final.kind = .eof) {slots : Slots Kind Piece}
    (h : (rule (ls.cursor index)).value = .node .rule slots) :
    ls.EndsDeclaration index 2 ((slots.map id Piece.shape).marked index) := by
  have hfront : Grown (ls.cursor index) _ _ :=
    Grown.cons (qualifiedName_grown .propertyName _) <|
      Grown.cons (@expect_grown .colon rfl (by decide) _) <| .nil _
  obtain rfl := (Tree.node.inj h).2
  exact declaration_ends hf hfront

theorem transition_ends (hf : ls.final.kind = .eof) {slots : Slots Kind Piece}
    (h : (transition (ls.cursor index)).value = .node .transition slots) :
    ls.EndsDeclaration index 3 ((slots.map id Piece.shape).marked index) := by
  have hfront : Grown (ls.cursor index) _ _ :=
    Grown.cons (take_grown _) <| Grown.cons (transitionArguments_grown _) <|
      Grown.cons (@expect_grown .colon rfl (by decide) _) <| .nil _
  obtain rfl := (Tree.node.inj h).2
  exact declaration_ends hf hfront

/-- What starts with no keyword of an action is read as one that sets a property. -/
theorem action_other (hs : c.kind ≠ .playStoryboardKeyword) (hx : c.kind ≠ .playSfxKeyword) :
    action c = (do
      let keyword ← expect .setKeyword
      let property ← qualifiedName .propertyName
      let target ← actionSelector
      let content ← value .action
      let semicolon ← accept .semicolon
      return Draft.composite .setTriggerAction [keyword, property, target, content, semicolon] :
        Production Draft) c := by
  simp [Parsing.action, look]

theorem actions_end (hf : ls.final.kind = .eof) {kind : Kind} {slots : Slots Kind Piece}
    (h : (action (ls.cursor index)).value = .node kind slots) :
    ls.EndsValues index ((slots.map id Piece.shape).marked index) kind := by
  by_cases hs : (ls.cursor index).kind = .playStoryboardKeyword
  · have hfront : Grown (ls.cursor index) _ _ :=
      Grown.cons (take_grown _) <| Grown.cons (actionSelector_grown _) <| .nil _
    rw [action_playStoryboard hs] at h
    obtain ⟨rfl, rfl⟩ := Tree.node.inj h
    exact action_ends hf hfront
  by_cases hx : (ls.cursor index).kind = .playSfxKeyword
  · have hfront : Grown (ls.cursor index) _ _ := Grown.cons (take_grown _) <| .nil _
    rw [action_playSfx hx] at h
    obtain ⟨rfl, rfl⟩ := Tree.node.inj h
    exact action_ends hf hfront
  · have hfront : Grown (ls.cursor index) _ _ :=
      Grown.cons (@expect_grown .setKeyword rfl (by decide) _) <|
        Grown.cons (qualifiedName_grown .propertyName _) <|
        Grown.cons (actionSelector_grown _) <| .nil _
    rw [action_other hs hx] at h
    obtain ⟨rfl, rfl⟩ := Tree.node.inj h
    exact action_ends hf hfront

end Production

/-- The values of a text end where they should, and their tokens spell what they cover. -/
structure ValuesEnd (text : Text) : Prop
    extends Stands text fun index kind slots =>
      (Lexemes.scan text).EndsValues index slots kind where
  tokens : List.Forall₂ (Place.IsOf text) (parse text).tree.tokens (marksOf text).tokens

theorem values_end (text : Text) : ValuesEnd text := by
  have hf := Lexemes.kind_final text
  refine ⟨stands_of_made fun index kind slots hmade => ?_, tokens_isOf text⟩
  rcases hmade with rfl | ⟨p, hp, hvalue⟩
  · trivial
  · cases hp with
    | rule => exact Production.rule_ends hf hvalue
    | transition => exact Production.transition_ends hf hvalue
    | playStoryboardTriggerAction | playSfxTriggerAction | setTriggerAction =>
      exact Production.actions_end hf hvalue
    | _ => trivial

/-- The semicolon of a comment stops no value, and the comment is part of the value's text. -/
example : let text := "a\x7bb:c/*;*/d !important;\x7d".toList
    ((parse text).tree.tokens.map fun p => (parse text).tree.slice? p.textSpan)[4]?
      = some (some "c/*;*/d".toList) := by decide +kernel

end Stylesheet
