import Stylesheet.Proofs.Making
import Stylesheet.Proofs.Reading.Loops
import Stylesheet.Sheet.Parser

/-!
# A parser makes what is drafted

The same productions make drafts and drive a builder. Both look at the same lexemes, so they take
the same ones and report the same problems, and the builder is asked for an element for each draft.
What a production hands on is the same too, drafts in one case and elements in the other
(`Carrier`).

**Relation (`Makes`).** Drafting keeps a record of faults and a parser panics. Where drafting
records none, the parser goes as far as drafting, or some resource does not suffice for the drafts.

Results:
* `Makes.bind`: one production after the other; elements made before may stay pending.
* `Makes.many`: loops.
* `Makes.take`, `Makes.missing`, `Makes.node`: what makes an element.
-/
namespace Stylesheet

/-- What a production hands on, in both cases: how it is told from what was made. -/
structure Carrier (γ α α' : Type) where
  draft : γ → α
  id : γ → α'
  /-- What was made and is still to be held by a node. -/
  held : γ → List Twin
  drafts : α → List Draft
  drafts_draft : ∀ z, drafts (draft z) = (held z).map Prod.fst
  exists_draft : ∀ a, ∃ z, draft z = a

namespace Carrier

variable {γ α α' : Type}

/-- What is not made at all. -/
def plain (α : Type) : Carrier α α α where
  draft a := a
  id a := a
  held _ := []
  drafts _ := []
  drafts_draft _ := rfl
  exists_draft a := ⟨a, rfl⟩

/-- One element. -/
def one : Carrier Twin Draft ElementId where
  draft := Prod.fst
  id := Prod.snd
  held m := [m]
  drafts d := [d]
  drafts_draft _ := rfl
  exists_draft d := ⟨(d, .node 0), rfl⟩

/-- Something, if it is there. -/
def option (C : Carrier γ α α') : Carrier (Option γ) (Option α) (Option α') where
  draft := Option.map C.draft
  id := Option.map C.id
  held z := (z.map C.held).getD []
  drafts a := (a.map C.drafts).getD []
  drafts_draft z := by
    cases z with
    | none => rfl
    | some z => exact C.drafts_draft z
  exists_draft a := by
    cases a with
    | none => exact ⟨none, rfl⟩
    | some a =>
      obtain ⟨z, hz⟩ := C.exists_draft a
      exact ⟨some z, congrArg some hz⟩

/-- Several things, in order. -/
def list (C : Carrier γ α α') : Carrier (List γ) (List α) (List α') where
  draft := List.map C.draft
  id := List.map C.id
  held z := z.flatMap C.held
  drafts a := a.flatMap C.drafts
  drafts_draft z := by
    induction z with
    | nil => rfl
    | cons z zs ih => simp [C.drafts_draft z, ← ih]
  exists_draft a := by
    induction a with
    | nil => exact ⟨[], rfl⟩
    | cons a as ih =>
      obtain ⟨z, hz⟩ := C.exists_draft a
      obtain ⟨zs, hzs⟩ := ih
      exact ⟨z :: zs, by simp [hz, hzs]⟩

theorem held_option_one (z : Option Twin) : one.option.held z = z.toList := by
  cases z <;> rfl

theorem drafts_option_one (d : Option Draft) : one.option.drafts d = d.toList := by
  cases d <;> rfl

end Carrier

/-- All lexemes ahead are of kinds of tokens. -/
def Cursor.Lexed (c : Cursor) : Prop := ∀ l ∈ c.ahead, l.kind.isToken

theorem Cursor.Lexed.advance {c : Cursor} (h : c.Lexed) (count : Nat) : (c.advance count).Lexed :=
  fun l hl => h l (List.mem_of_mem_drop hl)

theorem Parser.make_ok {call : Builder → Except BuildError (ElementId × Builder)} {s : ParserState}
    {x : ElementId} {b : Builder} (h : call s.builder = .ok (x, b)) :
    make call s = .ok (x, { s with builder := b }) := by
  simp only [make, h]

theorem Parser.make_error {call : Builder → Except BuildError (ElementId × Builder)}
    {s : ParserState} {e : BuildError} (h : call s.builder = .error e) :
    make call s = .error (.build e) := by
  simp only [make, h]

variable {γ γ' α α' β β' : Type} {C : Carrier γ α α'} {D : Carrier γ' β β'}
  {kept used : List Twin} {p : Production α} {q : Parser α'} {f : α → Production β}
  {g : α' → Parser β'}

section Many

variable {step : Parser (Option α')} {s behind : ParserState}

theorem Parser.many_of_error {panic : Panic} (h : step s = .error panic) :
    many step s = .error panic := by
  rw [many, h]

theorem Parser.many_of_none (h : step s = .ok (none, behind)) :
    many step s = .ok ([], behind) := by
  rw [many, h]

theorem Parser.many_of_some {a : α'} (h : step s = .ok (some a, behind))
    (hlt : behind.coming.length < s.coming.length) :
    many step s = (many step behind).map fun r => (a :: r.1, r.2) := by
  rw [many, h]
  simp only [hlt, if_true]
  cases many step behind <;> rfl

end Many

/-- What a parser comes to where drafting comes to an outcome without a fault. -/
inductive Follows (C : Carrier γ α α') (kept : List Twin) (o : Outcome α)
    (diagnostics : List Diagnostic) (r : Except Panic (α' × ParserState)) : Prop
  /-- It goes as far, and the builder holds what was drafted. -/
  | done (z : γ) (b : Builder) (hz : C.draft z = o.value)
    (hr : r = .ok (C.id z, ⟨o.rest, false, b, diagnostics ++ o.reports⟩))
    (hb : b.Holds (kept ++ C.held z)) (hl : o.rest.Lexed)
  /-- There is not enough for what was drafted. -/
  | full (e : BuildError) (hr : r = .error (.build e)) (he : e.isLimit)
    (hf : ¬Draft.Fit (kept.map Prod.fst ++ C.drafts o.value))

/-- One more item in front of others. -/
theorem Follows.cons {w : γ} {o : Outcome (List α)} {diagnostics reports : List Diagnostic}
    {faults : List Fault} {r : Except Panic (List α' × ParserState)}
    (h : Follows C.list (kept ++ C.held w) o (diagnostics ++ reports) r) :
    Follows C.list kept ⟨C.draft w :: o.value, o.rest, reports ++ o.reports, faults⟩ diagnostics
      (r.map fun r => (C.id w :: r.1, r.2)) := by
  cases h with
  | done zs b hz hr hb hl =>
    refine .done (w :: zs) b (congrArg _ hz) ?_ ?_ hl
    · rw [hr, List.append_assoc]
      rfl
    · rw [List.append_assoc] at hb
      exact hb
  | full e hr he hfit =>
    refine .full e (by rw [hr]; rfl) he ?_
    rw [List.map_append, ← C.drafts_draft, List.append_assoc] at hfit
    exact hfit

/-- Whether a parser makes what is drafted, from some elements made before. -/
structure Makes (C : Carrier γ α α') (used : List Twin) (p : Production α) (q : Parser α') :
    Prop where
  /-- What is handed on takes up what was there before, and more. -/
  covers : ∀ c r, Draft.usage r (used.map Prod.fst) ≤ Draft.usage r (C.drafts (p c).value)
  follows : ∀ kept c b diagnostics, c.Lexed → b.Holds (kept ++ used) → (p c).faults = [] →
    Follows C kept (p c) diagnostics (q ⟨c, false, b, diagnostics⟩)

namespace Makes

/-! ## Steps -/

theorem pure (z : γ) : Makes C (C.held z) (Pure.pure (C.draft z)) (Pure.pure (C.id z)) where
  covers c r := by
    rw [← C.drafts_draft]
    rfl
  follows kept c b diagnostics hl hb hf :=
    .done z b rfl (by rw [Production.pure_apply, List.append_nil]; rfl) hb hl

/-- What is put together of what was made. -/
theorem give {a : α} {a' : α'} (z : γ) (ha : C.draft z = a) (ha' : C.id z = a')
    (hheld : C.held z = used) : Makes C used (Pure.pure a) (Pure.pure a') := by
  subst ha ha' hheld
  exact .pure z

/-- One after the other. What was made before and is not used by the first stays pending. -/
theorem bind (front : List Twin) (h₁ : Makes C used p q)
    (h₂ : ∀ z, Makes D (front ++ C.held z) (f (C.draft z)) (g (C.id z))) :
    Makes D (front ++ used) (p >>= f) (q >>= g) where
  covers c r := by
    obtain ⟨z, hz⟩ := C.exists_draft (p c).value
    have hfirst := h₁.covers c r
    have hsecond := (h₂ z).covers (p c).rest r
    rw [← hz, C.drafts_draft] at hfirst
    rw [hz, List.map_append, Draft.usage_append] at hsecond
    rw [List.map_append, Draft.usage_append]
    exact Nat.le_trans (Nat.add_le_add_left hfirst _) hsecond
  follows kept c b diagnostics hl hb hf := by
    obtain ⟨hf₁, hf₂⟩ := List.append_eq_nil_iff.mp hf
    have hfirst := h₁.follows (kept ++ front) c b diagnostics hl
      (by rwa [List.append_assoc]) hf₁
    show Follows D kept _ diagnostics ((q ⟨c, false, b, diagnostics⟩).bind fun r => g r.1 r.2)
    cases hfirst with
    | done z b₁ hz hr hb₁ hl₁ =>
      rw [List.append_assoc] at hb₁
      have hsecond := (h₂ z).follows kept (p c).rest b₁ (diagnostics ++ (p c).reports) hl₁ hb₁
        (hz ▸ hf₂)
      rw [hz] at hsecond
      rw [hr]
      cases hsecond with
      | done w b₂ hw hr₂ hb₂ hl₂ =>
        refine .done w b₂ hw ?_ hb₂ hl₂
        rw [Production.bind_apply, ← List.append_assoc]
        exact hr₂
      | full e hr₂ he hfit => exact .full e hr₂ he hfit
    | full e hr he hfit =>
      refine .full e (by rw [hr]; rfl) he fun hall => hfit (hall.mono fun r => ?_)
      obtain ⟨z, hz⟩ := C.exists_draft (p c).value
      have hcovers := (h₂ z).covers (p c).rest r
      rw [hz] at hcovers
      rw [List.map_append, ← C.drafts_draft, hz] at hcovers
      simp only [Draft.usage_append, List.map_append] at hcovers ⊢
      exact Nat.add_assoc .. ▸ Nat.add_le_add_left hcovers _

/-- The first production uses nothing that was made before. -/
theorem andThen (h₁ : Makes C [] p q)
    (h₂ : ∀ z, Makes D (used ++ C.held z) (f (C.draft z)) (g (C.id z))) :
    Makes D used (p >>= f) (q >>= g) :=
  List.append_nil used ▸ .bind used h₁ h₂

theorem map {k : α → β} {k' : α' → β'} (h : Makes C used p q) (w : γ → γ')
    (hk : ∀ z, k (C.draft z) = D.draft (w z)) (hk' : ∀ z, k' (C.id z) = D.id (w z))
    (hheld : ∀ z, C.held z = D.held (w z)) : Makes D used (k <$> p) (k' <$> q) := by
  have hbind : Makes D ([] ++ used) (p >>= fun a => Pure.pure (k a))
      (q >>= fun a => Pure.pure (k' a)) := by
    refine .bind _ h fun z => ?_
    rw [hk, hk', hheld]
    exact .pure _
  exact hbind

theorem some (h : Makes C used p q) : Makes C.option used (Option.some <$> p) (Option.some <$> q) :=
  h.map Option.some (fun _ => rfl) (fun _ => rfl) fun _ => rfl

theorem look (view : Cursor → α) {f : α → Production β} {g : α → Parser β'}
    (h : ∀ a, Makes D used (f a) (g a)) :
    Makes D used (Production.look view >>= f) ((Parsing.look view : Parser α) >>= g) where
  covers c := (h (view c)).covers c
  follows kept c b diagnostics := (h (view c)).follows kept c b diagnostics

theorem holds (condition : Cursor → Bool) {f : Bool → Production β} {g : Bool → Parser β'}
    (h : ∀ b, Makes D used (f b) (g b)) :
    Makes D used (Production.holds condition >>= f)
      ((Parsing.holds condition : Parser Bool) >>= g) :=
  look condition h

theorem sees (kind : Kind) {f : Bool → Production β} {g : Bool → Parser β'}
    (h : ∀ b, Makes D used (f b) (g b)) :
    Makes D used (Production.sees kind >>= f) ((Parsing.sees kind : Parser Bool) >>= g) :=
  look _ h

theorem seesAny (kinds : KindSet) {f : Bool → Production β} {g : Bool → Parser β'}
    (h : ∀ b, Makes D used (f b) (g b)) :
    Makes D used (Production.seesAny kinds >>= f) ((Parsing.seesAny kinds : Parser Bool) >>= g) :=
  look _ h

theorem ite {b : Bool} {p' : Production α} {q' : Parser α'} (ht : Makes C used p q)
    (hf : Makes C used p' q') :
    Makes C used (if b = true then p else p') (if b = true then q else q') := by
  cases b with
  | false => exact hf
  | true => exact ht

theorem optional (h : Makes C [] p q) (b : Bool) :
    Makes C.option [] (Production.optional b p) (Parsing.optional b q) := by
  cases b with
  | false => exact .pure (C := C.option) none
  | true => exact h.some

/-! ## Reports -/

theorem report (problem : Problem) :
    Makes (Carrier.plain Unit) [] (Production.report problem) (Parsing.report problem) where
  covers _ _ := Nat.le_refl _
  follows _ _ b _ hl hb _ := .done () b rfl rfl hb hl

theorem reportGap (problem : Problem) :
    Makes (Carrier.plain Unit) [] (Production.reportGap problem) (Parsing.reportGap problem) where
  covers _ _ := Nat.le_refl _
  follows _ _ b _ hl hb _ := .done () b rfl rfl hb hl

/-! ## What a builder makes -/

/-- What a builder does about a call decides about the parser. -/
theorem follows_make {call : Builder → Except BuildError (ElementId × Builder)} {b : Builder}
    {d : Draft} {c : Cursor} {diagnostics : List Diagnostic}
    (h : (∃ x b', call b = .ok (x, b') ∧ b'.Holds (kept ++ [(d, x)])) ∨
      (∃ e, call b = .error e ∧ e.isLimit ∧ ¬Draft.Fit (kept.map Prod.fst ++ [d])))
    (hl : c.Lexed) :
    Follows Carrier.one kept ⟨d, c, [], []⟩ diagnostics
      (Parser.make call ⟨c, false, b, diagnostics⟩) := by
  rcases h with ⟨x, b', hok, hheld⟩ | ⟨e, herror, he, hfit⟩
  · exact .done (d, x) b' rfl (by rw [Parser.make_ok hok, List.append_nil]; rfl) hheld hl
  · exact .full e (Parser.make_error herror) he hfit

theorem missing {kind : Kind} (hk : kind.isToken) :
    Makes Carrier.one [] (Pure.pure (.missing kind)) (Parsing.missing kind) where
  covers _ _ := Nat.zero_le _
  follows kept c b diagnostics hl hb _ := by
    rw [List.append_nil] at hb
    exact follows_make (hb.token (p := .missing kind) hk) hl

/-- A node of the elements that were made last. -/
theorem node {kind : Kind} (slots : List (Option Twin)) (hk : kind.isComposite)
    (hc : kind.slotCount?.all (slots.length = ·)) (hs : slots.reduceOption = used) :
    Makes Carrier.one used (Parsing.node kind (slots.map (Option.map Prod.fst)))
      (Parsing.node kind (slots.map (Option.map Prod.snd))) where
  covers c r := by
    show _ ≤ Draft.usage r [Draft.composite kind (slots.map (Option.map Prod.fst))]
    rw [Draft.usage_cons, Draft.usage_composite, List.reduceOption_map, hs]
    omega
  follows kept c b diagnostics hl hb _ := by
    have hcount (expected : Nat) (he : kind.slotCount? = Option.some expected) :
        slots.length = expected := by
      simpa [he] using hc
    refine follows_make ((hb.node hk hcount hs).imp_left ?_) hl
    exact fun ⟨b', hok, hheld⟩ => ⟨_, b', hok, hheld⟩

/-- A node with any number of slots, none of them empty. -/
theorem row {kind : Kind} (items : List Twin) (hk : kind.isComposite)
    (hc : kind.slotCount? = Option.none) :
    Makes Carrier.one (Carrier.one.list.held items)
      (Parsing.node kind ((Carrier.one.list.draft items).map Option.some))
      (Parsing.node kind ((Carrier.one.list.id items).map Option.some)) := by
  have hheld : (items.map Option.some).reduceOption = Carrier.one.list.held items := by
    simp [List.reduceOption, Carrier.list, Carrier.one]
  have hnode := @node _ kind (items.map Option.some) hk (by rw [hc]; rfl) hheld
  rw [List.map_map, List.map_map] at hnode
  rw [Carrier.list, List.map_map, List.map_map]
  exact hnode

theorem list (items : List Twin) :
    Makes Carrier.one.option (Carrier.one.list.held items)
      (Parsing.list (Carrier.one.list.draft items)) (Parsing.list (Carrier.one.list.id items)) := by
  cases items with
  | nil => exact .pure (C := Carrier.one.option) none
  | cons m items => exact (@row .list (m :: items) rfl rfl).some

/-! ## Tokens -/

theorem takeRun {kind : Kind} (hk : kind.isToken) (count : Nat) :
    Makes Carrier.one [] (Production.takeRun kind count) (Parsing.takeRun kind count) where
  covers _ _ := Nat.zero_le _
  follows kept c b diagnostics hl hb hf := by
    rw [List.append_nil] at hb
    obtain ⟨first, more, htake, hle⟩ : ∃ first more, c.ahead.take count = first :: more ∧
        count ≤ c.ahead.length := by
      unfold Production.takeRun at hf
      split at hf
      · next first more htake =>
        refine ⟨first, more, htake, ?_⟩
        by_contra hlt
        simp [Production.pastEnd, hlt] at hf
      · cases hf
    rw [Production.takeRun_apply kind htake hle]
    show Follows _ _ _ _ (Parser.takeRun kind count ⟨c, false, b, diagnostics⟩)
    have hcoming : (c.ahead ++ [c.final]).take count = first :: more := by
      rw [List.take_append_of_le_length hle, htake]
    have hfits : count ≤ (c.ahead ++ [c.final]).length := by
      rw [List.length_append]
      omega
    -- where the final lexeme is not reached, passing lexemes moves the cursor and nothing else
    have hpass : (ParserState.mk c false b diagnostics).pass count
        = ⟨c.advance count, false, b, diagnostics⟩ := by
      simp [ParserState.pass, ParserState.coming, Cursor.advance, hcoming, htake, hle]
    unfold Parser.takeRun
    simp only [ParserState.coming, Bool.false_eq_true, if_false, hcoming, hfits, if_true, hpass]
    exact follows_make (hb.token (p := .run kind first more) hk) (hl.advance count)

/-- A lexeme that is there is taken like a run of one. -/
theorem takeAs {kind : Kind} (hk : kind.isToken) :
    Makes Carrier.one [] (Production.takeAs kind) (Parsing.takeAs kind) where
  covers _ _ := Nat.zero_le _
  follows kept c b diagnostics hl hb hf := by
    have h := (takeRun hk 1).follows kept c b diagnostics hl hb hf
    have hsame : (Parsing.takeAs kind : Parser ElementId) ⟨c, false, b, diagnostics⟩
        = (Parsing.takeRun kind 1 : Parser ElementId) ⟨c, false, b, diagnostics⟩ := by
      show Parser.takeAs kind _ = Parser.takeRun kind 1 _
      cases hc : c.ahead <;>
        simp [Parser.takeAs, Parser.takeRun, ParserState.coming, hc]
    rw [hsame]
    exact h

theorem take : Makes Carrier.one [] Production.take Parsing.take where
  covers _ _ := Nat.zero_le _
  follows kept c b diagnostics hl hb hf := by
    have hk : c.kind.isToken := by
      cases hc : c.ahead with
      | nil => simp [Production.take, Production.takeAs, Production.takeRun, hc] at hf
      | cons l rest =>
        have hkind : c.kind = l.kind := by simp [Cursor.kind, Cursor.kindAt, Lexeme.kindAt, hc]
        rw [hkind]
        exact hl l (hc ▸ List.mem_cons_self)
    exact (takeAs hk).follows kept c b diagnostics hl hb hf

theorem takeEach_zero (c : Cursor) :
    Production.takeEach 0 c = (Pure.pure [] : Production (List Draft)) c := by
  simp [Production.takeEach, Production.pastEnd]

/-- The first lexeme is taken, and then the others. -/
theorem takeEach_succ {c : Cursor} {count : Nat} (h : count + 1 ≤ c.ahead.length) :
    Production.takeEach (count + 1) c
      = (Production.take >>= fun d => Production.takeEach count >>= fun ds =>
        Pure.pure (d :: ds) : Production (List Draft)) c := by
  obtain ⟨l, rest, hc⟩ := List.exists_cons_of_length_pos (Nat.lt_of_lt_of_le count.succ_pos h)
  have hall : count + 1 ≤ rest.length + 1 := by simpa [hc] using h
  simp only [Production.bind_apply, Production.take_apply hc, Production.takeEach,
    Production.pastEnd, Cursor.advance_advance, hc]
  simp [Cursor.advance, hc, Nat.add_comm 1]

theorem takeEach_mapM (xs : List Nat) :
    Makes Carrier.one.list [] (Production.takeEach xs.length)
      (xs.mapM fun _ => (Parsing.take : Parser ElementId)) where
  covers _ _ := Nat.zero_le _
  follows kept c b diagnostics hl hb hf := by
    induction xs generalizing kept c b diagnostics with
    | nil =>
      rw [List.length_nil, takeEach_zero]
      exact (pure (C := Carrier.one.list) []).follows kept c b diagnostics hl hb rfl
    | cons x xs ih =>
      have hle : xs.length + 1 ≤ c.ahead.length := by
        by_contra hlt
        simp [Production.takeEach, Production.pastEnd, hlt] at hf
      rw [List.length_cons, takeEach_succ hle] at hf ⊢
      have hrest : Makes Carrier.one.list [] (Production.takeEach xs.length)
          (xs.mapM fun _ => (Parsing.take : Parser ElementId)) := ⟨fun _ _ => Nat.zero_le _, ih⟩
      rw [List.mapM_cons]
      exact (bind [] take fun m => hrest.andThen fun ms =>
        pure (C := Carrier.one.list) (m :: ms)).follows kept c b diagnostics hl hb hf

theorem lacking {kind : Kind} (hk : kind.isToken) (problem : Problem) :
    Makes Carrier.one [] (Production.lacking kind problem) (Parsing.lacking kind problem) :=
  (reportGap problem).andThen fun _ => missing hk

theorem absent {kind : Kind} (hk : kind.isToken) :
    Makes Carrier.one [] (Production.absent kind) (Parsing.absent kind) :=
  lacking hk _

theorem expect {kind : Kind} (hk : kind.isToken) :
    Makes Carrier.one [] (Production.expect kind) (Parsing.expect kind) :=
  .sees kind fun _ => .ite take (absent hk)

theorem accept (kind : Kind) :
    Makes Carrier.one.option [] (Production.accept kind) (Parsing.accept kind) :=
  .sees kind fun _ => .ite take.some (.pure (C := Carrier.one.option) none)

/-- Lexemes taken one by one. -/
theorem takeEach (count : Nat) :
    Makes Carrier.one.list [] (Production.takeEach count) (Parsing.takeEach count) := by
  have h := takeEach_mapM (List.range count)
  rwa [List.length_range] at h

/-! ## Loops -/

/-- A loop: by induction on the lexemes that are left. -/
theorem many {p : Production (Option α)} {q : Parser (Option α')} (h : Makes C.option [] p q) :
    Makes C.list [] (Production.many p) (Parsing.many q) where
  covers _ _ := Nat.zero_le _
  follows kept c b diagnostics hl hb hf := by
    show Follows _ _ _ _ (Parser.many q _)
    induction hn : c.ahead.length using Nat.strong_induction_on
      generalizing kept c b diagnostics with
    | h n ih =>
      subst hn
      cases hv : (p c).value with
      | none =>
        rw [Production.many_of_none hv] at hf ⊢
        cases h.follows kept c b diagnostics hl hb hf with
        | done z b' hz hr hb' hl' =>
          rw [hv] at hz
          obtain rfl : z = none := Option.map_eq_none_iff.mp hz
          exact .done [] b' rfl (Parser.many_of_none hr) hb' hl'
        | full e hr he hfit =>
          rw [hv] at hfit
          exact .full e (Parser.many_of_error hr) he hfit
      | some a =>
        obtain ⟨hf₁, hmore⟩ := Production.faults_many_nil hf
        obtain ⟨hlt, hf₂⟩ := hmore a hv
        rw [Production.many_of_some hv hlt]
        cases h.follows kept c b diagnostics hl hb hf₁ with
        | done z b' hz hr hb' hl' =>
          rw [hv] at hz
          obtain ⟨w, rfl, rfl⟩ := Option.map_eq_some_iff.mp hz
          rw [Parser.many_of_some hr (by simpa [ParserState.coming] using hlt)]
          exact .cons (ih _ hlt (kept ++ C.held w) _ b' _ hl' (by rwa [List.append_nil]) hf₂ rfl)
        | full e hr he hfit =>
          refine .full e (Parser.many_of_error hr) he fun hall => hfit (hall.mono fun r => ?_)
          rw [hv]
          simp [Carrier.option, Carrier.list]

end Makes

end Stylesheet
