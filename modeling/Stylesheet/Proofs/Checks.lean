import Stylesheet.Proofs.Everywhere
import Stylesheet.Proofs.Lossless

/-!
# Checks on the way of a parse

A parse checks that a counter of open braces does not go below zero, that nodes have the slots of
their kind, and that texts are cut between characters. None of this fails, whatever the text.

Results:
* `Run.bracedLength?_eq`, `Run.unexpectedLength?_eq`: the counters of open braces.
* `Reading.everywhere`: what holds of all nodes that a reading makes.
* `everywhere_parse`, `boundaries_parse`: the nodes of a parse, and the texts of its tokens.
* `Piece.boundaries`: where the tokens of a reading start and end.
-/
namespace Stylesheet

/-! ## Counting braces -/

namespace Run

/-- The counter of open groups behind a lexeme; `none` where it would go below zero. -/
def depthBehind? (kind : Kind) (depth : Nat) : Option Nat :=
  match kind, depth with
  | .leftBrace, depth => some (depth + 1)
  | .rightBrace, 0 => none
  | .rightBrace, depth + 1 => some depth
  | _, depth => some depth

/-- The number of lexemes before the brace that closes a value, with a counter. -/
def bracedLength? : Nat → List Lexeme → Option Nat
  | _, [] => some 0
  | depth, l :: rest =>
    if l.kind = .rightBrace ∧ depth = 0 then some 0
    else do
      let depth ← depthBehind? l.kind depth
      let more ← bracedLength? depth rest
      some (more + 1)

/-- The number of lexemes up to the brace at which the counter is back at zero. -/
def groupLength? : Nat → List Lexeme → Option Nat
  | _, [] => some 0
  | depth, l :: rest => do
    let depth ← depthBehind? l.kind depth
    if depth = 0 then some 1
    else
      let more ← groupLength? depth rest
      some (more + 1)

/-- The number of lexemes that fit nowhere, each group in braces counted by itself. -/
def unexpectedLength? (starts : KindSet) (first : Bool) : List Lexeme → Option Nat
  | [] => some 0
  | l :: rest =>
    if !first && (l.kind = .rightBrace || starts.contains l.kind) then some 0
    else
      match l.kind with
      | .leftBrace => do
        let group ← groupLength? 0 (l :: rest)
        let more ← unexpectedLength? starts false (rest.drop (group - 1))
        some (more + group)
      | .semicolon => some 1
      | _ => do
        let more ← unexpectedLength? starts false rest
        some (more + 1)
termination_by ls => ls.length
decreasing_by all_goals simp only [List.length_drop, List.length_cons]; omega

theorem depthBehind?_other {kind : Kind} (hl : kind ≠ .leftBrace) (hr : kind ≠ .rightBrace)
    (depth : Nat) : depthBehind? kind depth = some depth := by
  unfold depthBehind?
  split <;> simp_all

theorem unexpectedLength_other {starts : KindSet} {first : Bool} {l : Lexeme}
    (hl : l.kind ≠ .leftBrace) (hr : l.kind ≠ .rightBrace) (depth : Nat) (rest : List Lexeme) :
    unexpectedLength starts first (depth + 1) (l :: rest)
      = unexpectedLength starts false (depth + 1) rest + 1 := by
  rw [unexpectedLength]
  split <;> simp_all

/-- The counter inside of a value does not go below zero. -/
theorem bracedLength?_eq (depth : Nat) (ls : List Lexeme) :
    bracedLength? depth ls = some (bracedLength depth ls) := by
  induction ls generalizing depth with
  | nil => rfl
  | cons l rest ih =>
    by_cases hl : l.kind = .leftBrace
    · simp [bracedLength?, bracedLength, hl, depthBehind?, ih]
    by_cases hr : l.kind = .rightBrace
    · cases depth <;> simp [bracedLength?, bracedLength, hr, depthBehind?, ih]
    · simp [bracedLength?, bracedLength_other hl hr, hr, depthBehind?_other hl hr, ih]

/-- The counter of a group does not go below zero, and the group is taken whole. -/
theorem groupLength?_eq (starts : KindSet) (depth : Nat) (ls : List Lexeme) :
    ∃ group, groupLength? (depth + 1) ls = some group ∧
      unexpectedLength starts false (depth + 1) ls
        = unexpectedLength starts false 0 (ls.drop group) + group := by
  induction ls generalizing depth with
  | nil => exact ⟨0, rfl, rfl⟩
  | cons l rest ih =>
    by_cases hl : l.kind = .leftBrace
    · obtain ⟨group, hgroup, hlen⟩ := ih (depth + 1)
      refine ⟨group + 1, by simp [groupLength?, hl, depthBehind?, hgroup], ?_⟩
      simp [unexpectedLength, hl, hlen]
      omega
    by_cases hr : l.kind = .rightBrace
    · cases depth with
      | zero => exact ⟨1, by simp [groupLength?, hr, depthBehind?], by simp [unexpectedLength, hr]⟩
      | succ depth =>
        obtain ⟨group, hgroup, hlen⟩ := ih depth
        refine ⟨group + 1, by simp [groupLength?, hr, depthBehind?, hgroup], ?_⟩
        simp [unexpectedLength, hr, hlen]
        omega
    · obtain ⟨group, hgroup, hlen⟩ := ih depth
      refine ⟨group + 1, by simp [groupLength?, depthBehind?_other hl hr, hgroup], ?_⟩
      rw [unexpectedLength_other hl hr, hlen, List.drop_succ_cons]
      omega

theorem unexpectedLength?_eq (starts : KindSet) (first : Bool) (ls : List Lexeme) :
    unexpectedLength? starts first ls = some (unexpectedLength starts first 0 ls) := by
  fun_induction unexpectedLength? starts first ls with
  | case1 => rfl
  | case2 first l rest h => rw [unexpectedLength, if_pos h]
  | case3 first l rest h hl ih =>
    obtain ⟨group, hgroup, hlen⟩ := groupLength?_eq starts 0 rest
    have hall : groupLength? 0 (l :: rest) = some (group + 1) := by
      simp [groupLength?, hl, depthBehind?, hgroup]
    rw [unexpectedLength, if_neg h]
    simp only [hl, hall, hlen, Option.bind_eq_bind, Option.bind_some]
    rw [ih]
    simp
    omega
  | case4 first l rest h hl =>
    rw [unexpectedLength, if_neg h]
    simp [hl]
  | case5 first l rest h hl hs ih =>
    rw [unexpectedLength, if_neg h, ih]
    simp

end Run

/-! ## Nodes -/

theorem Slots.everywhere_singles (P : Kind → Slots Kind Piece → Prop) (ls : List Lexeme) :
    (ofList (ls.map fun l => some (Draft.single l.kind l))).Everywhere P := by
  induction ls with
  | nil => trivial
  | cons l ls ih => exact ⟨trivial, ih⟩

/-- What holds of nodes with the slots of their kind, of lists with items and of errors with
lexemes holds of all nodes of a reading. -/
theorem Reading.everywhere {P : Kind → Slots Kind Piece → Prop}
    (hnode : ∀ kind slots, kind.isComposite → kind.isLoose = false → Conforms kind slots →
      P kind (Slots.ofList slots))
    (hlist : ∀ items : List Draft, items ≠ [] → P .list (Slots.ofList (items.map some)))
    (herror : ∀ (l : Lexeme) (more : List Lexeme),
      P .error (Slots.ofList ((l :: more).map fun l => some (Draft.single l.kind l))))
    {c c' : Cursor} {slots : List (SlotRole × Option Draft)} {r : List Diagnostic}
    (h : Reading c slots c' r) : (Slots.ofList (slots.map Prod.snd)).Everywhere P := by
  induction h with
  | nil | empty | needed => trivial
  | append _ _ ih₁ ih₂ =>
    rw [List.map_append, Slots.everywhere_append]
    exact ⟨ih₁, ih₂⟩
  | run | unknownArgument | unknownLoop | lacking | covered => exact ⟨trivial, trivial⟩
  | node _ hk hl hs _ ih =>
    rw [Draft.map_snd_withRoles] at ih
    exact ⟨⟨hnode _ _ hk hl hs, ih⟩, trivial⟩
  | misplaced _ hk hs ih =>
    rw [Draft.map_snd_withRoles] at ih
    refine ⟨⟨?_, ih⟩, trivial⟩
    rcases Kind.isTrigger_iff.mp hk with rfl | rfl
    · exact hnode _ _ rfl rfl hs
    · exact hnode _ _ rfl rfl hs
  | @list _ _ _ _ items hn _ _ _ ih | @trailing _ _ _ _ items _ hn _ _ _ ih =>
    rw [List.map_map] at ih
    exact ⟨⟨hlist _ hn, ih⟩, trivial⟩
  | @error _ _ _ l more =>
    exact ⟨⟨herror l more, Slots.everywhere_singles P (l :: more)⟩, trivial⟩

/-- What holds of nodes with the slots of their kind, of lists with items and of errors with lexemes
holds of all nodes of a parse. -/
theorem everywhere_of_reading {P : Kind → Slots Kind Token → Prop}
    (hnode : ∀ kind slots, kind.isComposite → kind.isLoose = false → Conforms kind slots →
      P kind ((Slots.ofList slots).map id Piece.token))
    (hlist : ∀ items : List Draft, items ≠ [] →
      P .list ((Slots.ofList (items.map some)).map id Piece.token))
    (herror : ∀ (l : Lexeme) (more : List Lexeme),
      P .error ((Slots.ofList ((l :: more).map fun l => some (Draft.single l.kind l))).map id
        Piece.token))
    (text : Text) : (parse text).tree.root.element.Everywhere P := by
  obtain ⟨items, hvalue, hputs, -, -⟩ := draftOf_reading (Lexemes.scan text)
  have hitems : (Slots.ofList [Draft.list items]).Everywhere
      fun kind slots => P kind (slots.map id Piece.token) :=
    hputs.reading.everywhere hnode hlist herror
  have hslots : (parse text).tree.slots
      = (Slots.ofList ([Draft.list items] ++ [some (Draft.single .eof (Lexemes.scan text).final)])).map
        id Piece.token := by
    show (Slots.ofList (draftOf (Lexemes.scan text)).value).map id Piece.token = _
    rw [hvalue]
    rfl
  have hconf : Conforms .document
      ([Draft.list items] ++ [some (Draft.single .eof (Lexemes.scan text).final)]) :=
    .cons hputs.allowed (.cons (by simp [SlotRule.one, SlotRule.Allows]) .nil)
  refine ⟨?_, ?_⟩
  · have hroot := hnode .document _ rfl rfl hconf
    rwa [← hslots] at hroot
  · rw [hslots, Slots.everywhere_map, Slots.everywhere_append]
    exact ⟨hitems, trivial, trivial⟩

/-- What a parse owes for each node of its tree. -/
def NodeSafe (kind : Kind) (slots : Slots Kind Token) : Prop :=
  kind.Fits slots ∧ (kind = .error → ∃ t ∈ slots.tokens, t.isPresent)

theorem nodeSafe_of_conforms {kind : Kind} {slots : List (Option Draft)} (hk : kind.isComposite)
    (hl : kind.isLoose = false) (hs : Conforms kind slots) :
    NodeSafe kind ((Slots.ofList slots).map id Piece.token) := by
  refine ⟨⟨hk, fun count hc => ?_⟩, ?_⟩
  · rw [Slots.length_map, Slots.length_ofList, hs.length_eq hc]
  · rintro rfl
    cases hl

theorem nodeSafe_list (items : List Draft) :
    NodeSafe .list ((Slots.ofList (items.map some)).map id Piece.token) :=
  ⟨⟨rfl, nofun⟩, nofun⟩

theorem nodeSafe_error (l : Lexeme) (more : List Lexeme) :
    NodeSafe .error ((Slots.ofList ((l :: more).map fun l => some (Draft.single l.kind l))).map id
      Piece.token) := by
  refine ⟨⟨rfl, nofun⟩, fun _ => ⟨Piece.token (.run l.kind l []), ?_, rfl⟩⟩
  rw [Slots.tokens_map, Draft.tokens_ofList, Draft.piecesOf_singles]
  simp

/-- All nodes of a parse are as they should be. -/
theorem everywhere_parse (text : Text) :
    (parse text).tree.root.element.Everywhere NodeSafe :=
  everywhere_of_reading (fun _ _ => nodeSafe_of_conforms) (fun items _ => nodeSafe_list items)
    nodeSafe_error text

/-! ## Boundaries -/

/-- The text of a token starts and ends between characters. -/
theorem Piece.boundary {p : Piece} {before after text : Text}
    (ht : text = before ++ (Lexeme.textOf p.lexemes ++ after)) :
    Text.isBoundary text (Text.width before + p.token.leadingWidth)
      ∧ Text.isBoundary text (Text.width before + p.token.leadingWidth + p.token.width) := by
  cases p with
  | missing kind =>
    rw [ht]
    exact ⟨Text.isBoundary_width_append .., Text.isBoundary_width_append ..⟩
  | run kind first more =>
    rw [lexemes, textOf_run] at ht
    have hstart := Text.isBoundary_width_append (before ++ Gap.textOf first.leading)
      (joinedText first more ++ (Gap.textOf (lastOf first more).trailing ++ after))
    have hstop := Text.isBoundary_width_append
      (before ++ Gap.textOf first.leading ++ joinedText first more)
      (Gap.textOf (lastOf first more).trailing ++ after)
    have hlead : Token.leadingWidth (token (.run kind first more))
        = Text.width (Gap.textOf first.leading) := totalWidth_gaps _
    simp only [List.append_assoc, Text.width_append] at ht hstart hstop
    rw [hlead, ht]
    exact ⟨hstart, by rw [Nat.add_assoc]; exact hstop⟩

theorem Piece.boundaries {ps : List Piece} {before after text : Text}
    (ht : text = before ++ (Lexeme.textOf (ps.flatMap lexemes) ++ after)) :
    ∀ t ∈ Token.located (Text.width before) (ps.map token),
      Text.isBoundary text (t.1 + t.2.leadingWidth)
        ∧ Text.isBoundary text (t.1 + t.2.leadingWidth + t.2.width) := by
  induction ps generalizing before with
  | nil => simp [Token.located]
  | cons p ps ih =>
    rw [List.flatMap_cons, Lexeme.textOf_append] at ht
    have hwidth : Text.width before + p.token.fullWidth
        = Text.width (before ++ Lexeme.textOf p.lexemes) := by
      rw [fullWidth_token, Text.width_append, Lexeme.width_textOf]
    intro t hmem
    rcases List.mem_cons.mp hmem with rfl | hmem
    · exact Piece.boundary (by simpa using ht)
    · rw [hwidth] at hmem
      exact ih (by simpa using ht) t hmem

/-- The texts of the tokens of a parse start and end between characters. -/
theorem boundaries_parse (text : Text) :
    ∀ t ∈ Token.located 0 (parse text).tree.slots.tokens,
      Text.isBoundary text (t.1 + t.2.leadingWidth)
        ∧ Text.isBoundary text (t.1 + t.2.leadingWidth + t.2.width) := by
  have htext : text = [] ++ (Lexeme.textOf ((Draft.piecesOf
      (draftOf (Lexemes.scan text)).value).flatMap Piece.lexemes) ++ []) := by
    rw [lexemes_draftOf, Lexemes.textOf_scan, List.append_nil, List.nil_append]
  rw [tokens_parse]
  exact Piece.boundaries htext

/-- The tree of a parse spans the text. -/
theorem fullWidth_parse (text : Text) : (parse text).tree.slots.fullWidth = Text.width text := by
  rw [Slots.fullWidth_eq_totalWidth, tokens_parse, Piece.totalWidth_tokens, lexemes_draftOf,
    ← Lexeme.width_textOf, Lexemes.textOf_scan]

/-- Every token of a parse has a kind of token. -/
theorem isToken_of_mem_tokens {text : Text} {t : Token} (h : t ∈ (parse text).tree.slots.tokens) :
    t.kind.isToken := by
  obtain ⟨pieces, hpieces, hbody, hholds⟩ := draftOf_pieces text
  rw [tokens_parse, hpieces, List.map_append, List.mem_append] at h
  rcases h with h | h
  · obtain ⟨p, hp, rfl⟩ := List.mem_map.mp h
    have hlexemes (l : Lexeme) (hl : l ∈ p.lexemes) : l ∈ (Lexemes.scan text).body :=
      hbody ▸ List.mem_flatMap_of_mem hp hl
    have hkind := (hholds p hp).isToken fun l hl => (Lexemes.kind_of_mem_body (hlexemes l hl)).1
    cases p <;> exact hkind
  · rw [List.map_singleton, List.mem_singleton] at h
    rw [h]
    rfl

end Stylesheet
