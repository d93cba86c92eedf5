import Stylesheet.Proofs.Braces

/-!
# Braces of loops

A loop of balanced steps is balanced. The loop of a block stops at the first closing brace that is
one too many, since each of its items is balanced: recovery from what fits nowhere takes groups
whole, and stops before a closing brace.

Results:
* `outside_unexpected`: what fits nowhere is read without an end to a group opened before.
* `unexpected_balanced`, `block_balanced`, `separated_balanced`: the three loops of style sheets.
-/
namespace Stylesheet.Production

/-! ## The loop -/

section Many

variable {step : Production (Option Draft)} {role : SlotRole}

/-- A loop of balanced steps, in its slot. -/
theorem many_balanced (hs : Steps step role)
    (hstep : ∀ c d, (step c).value = some d → (step c).Balances c [some d]) (c : Cursor) :
    (many step c).Balances c [Draft.list (many step c).value] :=
  Balanced.list (many_row .nil .append hs hstep c)

end Many

theorem optional_balanced {condition : Bool} {p : Production Draft} {c : Cursor}
    (h : condition = true → (p c).Balances c [some (p c).value]) :
    (optional condition p c).Balances c [(optional condition p c).value] := by
  cases condition with
  | false => exact .empty c
  | true =>
    rw [optional_true]
    exact h rfl

theorem optional_step_balanced {condition : Cursor → Bool} {item : Production Draft} {c : Cursor}
    {d : Draft} (hitem : ∀ c, condition c → (item c).Balances c [some (item c).value])
    (hd : ((do optional (← holds condition) item : Production (Option Draft)) c).value = some d) :
    ((do optional (← holds condition) item : Production (Option Draft)) c).Balances c [some d] := by
  have hslot : (optional (condition c) item c).Balances c [(optional (condition c) item c).value] :=
    optional_balanced (hitem c)
  rw [← hd]
  exact hslot

/-! ## What fits nowhere -/

/-- What fits nowhere is read up to a closing brace at most, and groups in it are taken whole. -/
theorem outside_unexpected (starts : KindSet) (first : Bool) (depth : Nat) (ls : List Lexeme)
    (h : first = true → Lexeme.kindAt ls 0 ≠ .rightBrace) :
    Run.outside 0 (ls.drop (Run.unexpectedLength starts first depth ls))
      = Run.outside depth ls := by
  fun_induction Run.unexpectedLength starts first depth ls with
  | case1 first depth => simp
  | case2 first depth l rest hl ih =>
    rw [List.drop_succ_cons, ih (by simp), Run.outside_opening hl]
  | case3 first depth l rest hr ih =>
    rw [List.drop_succ_cons, ih (by simp), Run.outside_closing hr]
  | case4 first depth l rest hl hr ih =>
    rw [List.drop_succ_cons, ih (by simp), Run.outside_other (Lexeme.isBrace_eq_false_iff.mpr ⟨hl, hr⟩)]
  | case5 first l rest hstop => rfl
  | case6 first l rest hgo hl ih =>
    rw [List.drop_succ_cons, ih (by simp), Run.outside_opening hl]
  | case7 first l rest hgo hs =>
    rw [List.drop_succ_cons, List.drop_zero, Run.outside_other (by simp [Lexeme.isBrace, hs])]
  | case8 first l rest hgo hl hs ih =>
    have hr : l.kind ≠ .rightBrace := by
      intro hr
      cases first with
      | true => exact h rfl hr
      | false => simp [hr] at hgo
    rw [List.drop_succ_cons, ih (by simp), Run.outside_other (Lexeme.isBrace_eq_false_iff.mpr ⟨hl, hr⟩)]

theorem matched_singles {c c' : Cursor} {ls : List Lexeme} (hp : c.Passes ls c') :
    Matched c (ls.map fun l => some (Draft.single l.kind l)) c' := by
  have hnodes (ls : List Lexeme) : (Slots.ofList (ls.map fun l => some (Draft.single l.kind l))
      ).EverywhereBefore Draft.Braced c'.ahead := by
    induction ls with
    | nil => trivial
    | cons l ls ih => exact ⟨trivial, ih⟩
  exact ⟨by rwa [Draft.lexemesOf_singles], fun _ => hnodes ls⟩

theorem unexpected_matched {starts : KindSet} {c : Cursor} (h : c.kind ≠ .eof) :
    Matched c [some (unexpected starts c).value] (unexpected starts c).rest := by
  obtain ⟨l, more, count, htake, hx⟩ := unexpected_apply starts h
  rw [hx]
  exact .node (by decide) (matched_singles (htake ▸ c.passes_take (count + 1)))

/-- Where no closing brace comes next, what fits nowhere ends no group. -/
theorem unexpected_balanced {starts : KindSet} {c : Cursor} (h : c.kind ≠ .eof)
    (hr : c.kind ≠ .rightBrace) :
    (unexpected starts c).Balances c [some (unexpected starts c).value] :=
  ⟨unexpected_matched h, fun _ => outside_unexpected starts true 0 c.ahead fun _ => hr⟩

/-! ## Blocks -/

/-- An opening brace that comes next, taken. -/
theorem exists_opening {c : Cursor} (h : c.kind = .leftBrace) :
    ∃ l, l.kind = .leftBrace ∧ c.Passes [l] (c.advance 1) ∧
      take c = ⟨.single .leftBrace l, c.advance 1, [], []⟩ := by
  obtain ⟨l, rest, hc, hl⟩ := Cursor.exists_ahead (c := c) (by simp [h])
  refine ⟨l, hl.trans h, Cursor.passes_one hc, ?_⟩
  rw [take_apply hc, hl, h]

section Block

variable {starts : KindSet} {item : Production Draft} {c : Cursor}

theorem blockStep_balanced
    (hitem : ∀ c, starts.contains c.kind → (item c).Balances c [some (item c).value])
    (c : Cursor) (d : Draft) (hd : (blockStep starts item c).value = some d) :
    (blockStep starts item c).Balances c [some d] := by
  rw [blockStep_apply] at hd ⊢
  split at hd
  · cases hd
  · next he =>
    cases hd
    rw [if_neg he]
    unfold blockItem
    split
    · next hs => exact hitem c hs
    · exact unexpected_balanced (not_or.mp he).2 (not_or.mp he).1

/-- The loop of a block stops at a closing brace or at the end. -/
theorem many_blockStep_kind (hitem : ∀ c, starts.contains c.kind → Item item .plain c) (c : Cursor) :
    (many (blockStep starts item) c).rest.kind = .rightBrace ∨
      (many (blockStep starts item) c).rest.kind = .eof := by
  have hstop := many_stops (blockStep_steps hitem) c
  rw [blockStep_apply] at hstop
  by_contra hk
  rw [if_neg hk, map_apply] at hstop
  cases congrArg Outcome.value hstop

theorem outside_ahead (h : c.kind = .rightBrace ∨ c.kind = .eof)
    (hfinal : ∀ l ∈ c.ahead, l.kind ≠ .eof) : Run.outside 0 c.ahead = c.ahead := by
  rcases h with h | h
  · obtain ⟨r, rest, hc, hr⟩ := Cursor.exists_ahead (c := c) (by simp [h])
    rw [hc, Run.outside_zero_closing (hr.trans h)]
  · rw [Cursor.ahead_eq_nil h hfinal, Run.outside_nil]

/-- A block ends at its own closing brace, whatever its items make of what stands before it. -/
theorem block_balanced (hitem : ∀ c, starts.contains c.kind → Item item .plain c)
    (hbalanced : ∀ c, starts.contains c.kind → (item c).Balances c [some (item c).value])
    (c : Cursor) : (block starts item c).Balances c [some (block starts item c).value] := by
  rw [block_apply]
  split
  · next h =>
    obtain ⟨l, hl, hpass, htake⟩ := exists_opening h
    have hitems := many_balanced (blockStep_steps hitem) (blockStep_balanced hbalanced)
      (c.advance 1)
    simp only [bind_apply, many_bind_apply, pure_apply, htake]
    refine .braced nofun hl hpass hitems.toMatched fun hcalm => ?_
    -- The items are balanced, so the loop has stopped at the brace that closes the block.
    have hstop := many_blockStep_kind hitem (c.advance 1)
    rw [← hitems.level hcalm, outside_ahead hstop]
    intro m hm
    exact hcalm.final m (hitems.passes.ahead ▸ List.mem_append_right _ hm)
  · exact .bare nofun (.empty c)

end Block

/-! ## Separated lists -/

section Separated

variable {listed : Listed} {starts : Cursor → Bool} {item : Production Draft}

theorem Separated.balanced {c : Cursor} {o : Outcome (List Draft)}
    (hitem : ∀ c, starts c → (item c).Balances c [some (item c).value])
    (h : Separated listed starts item c o) : Balanced c (o.value.map some) o.rest := by
  have hcomma {c c' : Cursor} {l : Lexeme} (hl : c.Passes [l] c') (hk : l.kind = .comma) :
      Balanced c [some (.single l.kind l)] c' :=
    .run hl (by simp [Lexeme.isBrace, hk])
  induction h with
  | nothing => exact .nil _
  | last h => exact hitem _ h
  | trailing h hl hk => exact Balanced.cons (hitem _ h) (hcomma hl hk)
  | next h hl hk hn ht ih => exact Balanced.cons (hitem _ h) ((hcomma hl hk).cons ih)
  | gap h hk hn ht ih => exact Balanced.cons (hitem _ h) ((Balanced.missing .comma _).cons ih)

/-- A separated list of balanced items, in its slot. -/
theorem separated_balanced (hlt : ∀ c, starts c → (item c).rest.ahead.length < c.ahead.length)
    (hitem : ∀ c, starts c → (item c).Balances c [some (item c).value]) (c : Cursor) :
    (separated listed starts item c).Balances c
      [Draft.list (separated listed starts item c).value] := by
  have hsep : Separated listed starts item c _ := separated_separated hlt c
  exact Balanced.list (hsep.balanced hitem)

end Separated

end Stylesheet.Production
