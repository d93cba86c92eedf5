import Stylesheet.Proofs.Pairing.Pieces

/-!
# Texts without their last braces

A text that ends with closing braces is read beside the same text without them. Where both have a
lexeme ahead it is the same one. Where the shorter text has ended, the longer one goes on with
braces, and hardly anything tells a closing brace from the end: no production looks for either of
them but to close what it opened. So both productions do the same, until the longer text has a
brace for its block and the shorter one does not, and reports it.

Values are compared piece by piece. A piece holds in the shorter text what it holds in the longer
one, as far as that text goes; a closing brace behind its end is missing. A tally of what is left of
the shorter text, and of the braces it lacked, goes from piece to piece.

Results:
* `Unclosed.Meets.view`: what is seen of the kind of a lexeme, whatever takes a brace for the end.
* `Unclosed.Parallel.bind`: one production after the other.
* `Unclosed.steady_takeRun`, `Unclosed.steady_expect`: what is there, or a brace that is missing.
-/
namespace Stylesheet

namespace Diagnostic

@[simp] theorem errors_append (a b : List Diagnostic) : errors (a ++ b) = errors a ++ errors b :=
  List.filter_append ..

@[simp] theorem warnings_append (a b : List Diagnostic) :
    warnings (a ++ b) = warnings a ++ warnings b :=
  List.filter_append ..

end Diagnostic

namespace Unclosed

/-! ## What is left of a value -/

/-- How a text without its last braces is getting on. -/
structure Tally where
  /-- The lexemes ahead. -/
  ahead : Nat
  /-- The braces that it lacked so far. -/
  lacking : Nat

/-- What became of a value of the longer text in the shorter one, between two tallies. -/
abbrev Left (α : Type) : Type := Tally → Tally → α → α → Prop

inductive LeftOption {α : Type} (R : Left α) : Left (Option α)
  | none {s : Tally} : LeftOption R s s none none
  | some {s t : Tally} {a a' : α} : R s t a a' → LeftOption R s t (some a) (some a')

inductive LeftList {α : Type} (R : Left α) : Left (List α)
  | nil {s : Tally} : LeftList R s s [] []
  | cons {s t u : Tally} {a a' : α} {as as' : List α} :
    R s t a a' → LeftList R t u as as' → LeftList R s u (a :: as) (a' :: as')

variable {α γ : Type} {R : Left α} {s t u : Tally}

namespace LeftOption

theorem of_none {o : Option α} (h : LeftOption R s t Option.none o) : o = Option.none ∧ s = t := by
  cases h
  exact ⟨rfl, rfl⟩

theorem of_some {a : α} {o : Option α} (h : LeftOption R s t (Option.some a) o) :
    ∃ a', o = Option.some a' ∧ R s t a a' := by
  cases h with
  | some h => exact ⟨_, rfl, h⟩

end LeftOption

namespace LeftList

variable {as as' bs bs' : List α}

theorem append (ha : LeftList R s t as as') (hb : LeftList R t u bs bs') :
    LeftList R s u (as ++ bs) (as' ++ bs') := by
  induction ha with
  | nil => exact hb
  | cons h _ ih => exact .cons h (ih hb)

theorem single {a a' : α} (h : R s t a a') : LeftList R s t [a] [a'] := .cons h .nil

theorem flatten {gs gs' : List (List α)} (h : LeftList (LeftList R) s t gs gs') :
    LeftList R s t gs.flatten gs'.flatten := by
  induction h with
  | nil => exact .nil
  | cons h _ ih => exact h.append ih

theorem map_some (h : LeftList R s t as as') :
    LeftList (LeftOption R) s t (as.map Option.some) (as'.map Option.some) := by
  induction h with
  | nil => exact .nil
  | cons h _ ih => exact .cons (.some h) ih

theorem isEmpty_eq (h : LeftList R s t as as') : as.isEmpty = as'.isEmpty := by
  cases h <;> rfl

end LeftList

/-- What became of a piece. -/
inductive LeftPiece : Left Piece
  /-- Its lexemes, as far as the text goes. -/
  | kept {kind : Kind} {first : Lexeme} {more : List Lexeme} {n e : Nat} :
    LeftPiece ⟨n + 1, e⟩ ⟨n - more.length, e⟩ (.run kind first more) (.run kind first (more.take n))
  /-- Behind the end of the text a brace is missing. -/
  | lost {l : Lexeme} {e : Nat} :
    LeftPiece ⟨0, e⟩ ⟨0, e + 1⟩ (.run .rightBrace l []) (.missing .rightBrace)

theorem LeftPiece.kind_eq {p p' : Piece} (h : LeftPiece s t p p') : p.kind = p'.kind := by
  cases h <;> rfl

/-- What became of a draft: the same nodes, and what is left of each piece. -/
structure LeftDraft (s t : Tally) (d d' : Draft) : Prop where
  kinds : d.map id Piece.kind = d'.map id Piece.kind
  pieces : LeftList LeftPiece s t d.tokens d'.tokens

namespace LeftDraft

theorem token {p p' : Piece} (h : LeftPiece s t p p') : LeftDraft s t (.token p) (.token p') :=
  ⟨congrArg Tree.token h.kind_eq, .single h⟩

theorem slots {slots slots' : List (Option Draft)}
    (h : LeftList (LeftOption LeftDraft) s t slots slots') :
    (Slots.ofList slots).map id Piece.kind = (Slots.ofList slots').map id Piece.kind ∧
      LeftList LeftPiece s t (Draft.piecesOf slots) (Draft.piecesOf slots') := by
  induction h with
  | nil => exact ⟨rfl, .nil⟩
  | cons h _ ih =>
    cases h with
    | none => exact ⟨congrArg Slots.empty ih.1, ih.2⟩
    | some h => exact ⟨congrArg₂ Slots.filled h.kinds ih.1, h.pieces.append ih.2⟩

theorem composite {kind : Kind} {slots slots' : List (Option Draft)}
    (h : LeftList (LeftOption LeftDraft) s t slots slots') :
    LeftDraft s t (.composite kind slots) (.composite kind slots') := by
  obtain ⟨hkinds, hpieces⟩ := LeftDraft.slots h
  refine ⟨congrArg (Tree.node kind) hkinds, ?_⟩
  rw [Draft.tokens_composite, Draft.tokens_composite]
  exact hpieces

theorem list {items items' : List Draft} (h : LeftList LeftDraft s t items items') :
    LeftOption LeftDraft s t (Draft.list items) (Draft.list items') := by
  unfold Draft.list
  rw [← h.isEmpty_eq]
  cases h with
  | nil => exact .none
  | cons h hs => exact .some (.composite (LeftList.cons h hs).map_some)

end LeftDraft

/-! ## Cursors -/

/-- The cursor `c` of the longer text and the cursor `c'` of the shorter one, which ends at `stop`:
the longer text has the same lexemes ahead, and braces behind them. -/
structure Meets (stop : Nat) (c c' : Cursor) : Prop where
  ahead : ∃ braces, c.ahead = c'.ahead ++ braces ∧ ∀ l ∈ braces, l.kind = .rightBrace
  behind : c'.ahead ≠ [] → c.behind = c'.behind
  offset : c'.ahead ≠ [] → c.offset = c'.offset
  stop : c'.offset + Lexeme.widthOf c'.ahead + c'.final.leadingWidth = stop

variable {stop n e : Nat} {c c' : Cursor}

/-- What takes a closing brace for the end of the text sees no difference. -/
theorem view_append (f : Kind → α) (hf : f .rightBrace = f .eof) {braces : List Lexeme}
    (hb : ∀ l ∈ braces, l.kind = .rightBrace) (ls : List Lexeme) (n : Nat) :
    f (Lexeme.kindAt (ls ++ braces) n) = f (Lexeme.kindAt ls n) := by
  by_cases hn : n < ls.length
  · rw [Lexeme.kindAt, Lexeme.kindAt, List.getElem?_append_left hn]
  · rw [Lexeme.kindAt, Lexeme.kindAt, List.getElem?_append_right (by omega),
      List.getElem?_eq_none (by omega : ls.length ≤ n)]
    cases hget : braces[n - ls.length]? with
    | none => rfl
    | some l =>
      rw [Option.map_some, Option.getD_some, hb l (List.mem_of_getElem? hget), hf]
      rfl

namespace Meets

theorem view (h : Meets stop c c') (f : Kind → α) (hf : f .rightBrace = f .eof) (n : Nat) :
    f (c.kindAt n) = f (c'.kindAt n) := by
  obtain ⟨braces, hahead, hb⟩ := h.ahead
  rw [Cursor.kindAt, hahead]
  exact view_append f hf hb c'.ahead n

theorem sees (h : Meets stop c c') {kind : Kind} (hb : kind ≠ .rightBrace) (he : kind ≠ .eof) :
    decide (c.kind = kind) = decide (c'.kind = kind) :=
  h.view (fun k => decide (k = kind)) (by rw [decide_eq_false hb.symm, decide_eq_false he.symm]) 0

theorem contains (h : Meets stop c c') {kinds : KindSet}
    (hk : kinds.contains .rightBrace = kinds.contains .eof) :
    kinds.contains c.kind = kinds.contains c'.kind :=
  h.view kinds.contains hk 0

/-- Where the shorter text has not ended, the next lexeme is the same. -/
theorem next_eq (h : Meets stop c c') (hne : c'.ahead ≠ []) : c.next = c'.next := by
  obtain ⟨braces, hahead, -⟩ := h.ahead
  obtain ⟨l, rest, hl⟩ := List.exists_cons_of_ne_nil hne
  rw [Cursor.next, Cursor.next, hahead, hl]
  rfl

theorem kind_eq (h : Meets stop c c') (hne : c'.ahead ≠ []) : c.kind = c'.kind := by
  obtain ⟨braces, hahead, -⟩ := h.ahead
  obtain ⟨l, rest, hl⟩ := List.exists_cons_of_ne_nil hne
  rw [Cursor.kind, Cursor.kindAt, Cursor.kind, Cursor.kindAt, hahead, hl]
  rfl

/-- Where it has ended, a brace comes next in the longer text, or that has ended too. -/
theorem kind_of_end (h : Meets stop c c') (hnil : c'.ahead = []) :
    c.kind = .rightBrace ∨ c.ahead = [] := by
  obtain ⟨braces, hahead, hb⟩ := h.ahead
  rw [hnil, List.nil_append] at hahead
  cases braces with
  | nil => exact .inr hahead
  | cons l rest =>
    refine .inl ?_
    rw [Cursor.kind, Cursor.kindAt, hahead]
    exact hb l (List.mem_cons_self ..)

theorem kind_eq_of_ne (h : Meets stop c c') (hb : c.kind ≠ .rightBrace) : c.kind = c'.kind := by
  by_cases hne : c'.ahead = []
  · rw [Cursor.kind, Cursor.kindAt, Cursor.kind, Cursor.kindAt, hne,
      (h.kind_of_end hne).resolve_left hb]
  · exact h.kind_eq hne

theorem touching (h : Meets stop c c') {f : Kind → Bool} (hb : f .rightBrace = false)
    (he : f .eof = false) : (c.touching && f c.kind) = (c'.touching && f c'.kind) := by
  by_cases hne : c'.ahead = []
  · have hkind : c'.kind = .eof := by
      rw [Cursor.kind, Cursor.kindAt, hne]
      rfl
    have hview := h.view f (hb.trans he.symm) 0
    rw [show f c.kind = f c'.kind from hview, hkind, he, Bool.and_false, Bool.and_false]
  · rw [h.kind_eq hne, Cursor.touching, Cursor.touching, h.next_eq hne, h.behind hne]

theorem span_eq (h : Meets stop c c') (hne : c'.ahead ≠ []) : c.span = c'.span := by
  rw [Cursor.span, Cursor.span, h.next_eq hne, h.offset hne]

/-- At the end of the shorter text nothing stands behind the gap. -/
theorem gap_eq (h : Meets stop c c') (hnil : c'.ahead = []) : c'.gap = Span.emptyAt stop := by
  have hstop := h.stop
  rw [hnil, Lexeme.widthOf, Nat.add_zero] at hstop
  rw [Cursor.gap, Cursor.span, Cursor.next, hnil, ← hstop]
  rfl

theorem advance (h : Meets stop c c') (n : Nat) : Meets stop (c.advance n) (c'.advance n) := by
  obtain ⟨braces, hahead, hb⟩ := h.ahead
  have hlt (hne : (c'.advance n).ahead ≠ []) : n < c'.ahead.length := by
    rw [Cursor.ahead_advance] at hne
    exact Nat.lt_of_not_le fun hle => hne (List.drop_of_length_le hle)
  have htake (hne : (c'.advance n).ahead ≠ []) : c.ahead.take n = c'.ahead.take n := by
    rw [hahead, List.take_append_of_le_length (hlt hne).le]
  have hne (hne : (c'.advance n).ahead ≠ []) : c'.ahead ≠ [] := by
    intro hnil
    simp [hnil] at hne
  refine ⟨⟨braces.drop (n - c'.ahead.length), ?_, fun l hl => hb l (List.mem_of_mem_drop hl)⟩,
    fun hmore => ?_, fun hmore => ?_, ?_⟩
  · rw [Cursor.ahead_advance, Cursor.ahead_advance, hahead, List.drop_append]
  · simp only [Cursor.advance, htake hmore, h.behind (hne hmore)]
  · simp only [Cursor.advance, htake hmore, h.offset (hne hmore)]
  · rw [← h.stop]
    have hwidth := congrArg Lexeme.widthOf (List.take_append_drop n c'.ahead)
    rw [Lexeme.widthOf_append] at hwidth
    simp only [Cursor.advance]
    omega

end Meets

/-! ## Productions side by side -/

/-- What is reported of a brace that the shorter text lacks. -/
def lack (stop : Nat) : Diagnostic := (Problem.expected .rightBrace).reportAt (Span.emptyAt stop)

/-- The longer text's outcome and that of the shorter one, whose value is counted from the tally
`s`, and which lacked `e` braces before. -/
structure Same (stop : Nat) (R : Left α) (s : Tally) (e : Nat) (o o' : Outcome α) : Prop where
  value : R s ⟨o'.rest.ahead.length, e + (Diagnostic.errors o'.reports).length⟩ o.value o'.value
  rest : Meets stop o.rest o'.rest
  errors : ∀ d ∈ Diagnostic.errors o'.reports, d = lack stop
  warnings : Diagnostic.warnings o'.reports = o.reports

/-- A production of the longer text and another one of the shorter text do the same, if the first
one finds no error and the second one makes no mistake. -/
def Parallel (stop : Nat) (R : Left α) (s : Tally) (e : Nat) (c c' : Cursor)
    (p p' : Production α) : Prop :=
  Meets stop c c' → (p c).Good → (p' c').faults = [] → Same stop R s e (p c) (p' c')

/-- A production does the same in both texts. -/
def Steady (stop : Nat) (R : Left α) (p : Production α) : Prop :=
  ∀ c c' e, Parallel stop R ⟨c'.ahead.length, e⟩ e c c' p p

variable {Q : Left γ} {p p' : Production α} {f f' : α → Production γ}

namespace Parallel

theorem done {a a' : α} (h : R s ⟨c'.ahead.length, e⟩ a a') :
    Parallel stop R s e c c' (pure a) (pure a') :=
  fun hm _ _ => ⟨h, hm, by simp [Diagnostic.errors], rfl⟩

theorem first {a a' : α} (h : Parallel stop Q s e c c' (f a) (f' a')) :
    Parallel stop Q s e c c' (pure a >>= f) (pure a' >>= f') :=
  h

/-- One production after the other. -/
theorem bind (h₁ : Parallel stop R ⟨c'.ahead.length, e⟩ e c c' p p')
    (h₂ : ∀ a a' c₁ c₁' e₁, R ⟨c'.ahead.length, e⟩ ⟨c₁'.ahead.length, e₁⟩ a a' →
      Parallel stop Q s e₁ c₁ c₁' (f a) (f' a')) :
    Parallel stop Q s e c c' (p >>= f) (p' >>= f') := by
  intro hm hg hf
  rw [Production.bind_apply] at hg hf
  obtain ⟨hgood₁, hgood₂⟩ := Outcome.good_append.mp hg
  obtain ⟨hfault₁, hfault₂⟩ := List.append_eq_nil_iff.mp hf
  have hfirst := h₁ hm hgood₁ hfault₁
  have hsecond := h₂ _ _ _ _ _ hfirst.value hfirst.rest hgood₂ hfault₂
  rw [Production.bind_apply, Production.bind_apply]
  refine ⟨?_, hsecond.rest, ?_, ?_⟩
  · have hvalue := hsecond.value
    rw [Nat.add_assoc, ← List.length_append, ← Diagnostic.errors_append] at hvalue
    exact hvalue
  · intro d hd
    rw [Diagnostic.errors_append] at hd
    exact (List.mem_append.mp hd).elim (hfirst.errors d) (hsecond.errors d)
  · rw [Diagnostic.warnings_append, hfirst.warnings, hsecond.warnings]

/-- A look. What follows it may know what was seen in each text. -/
theorem look {see : Cursor → α}
    (h : Meets stop c c' → Parallel stop Q s e c c' (f (see c)) (f' (see c'))) :
    Parallel stop Q s e c c' (Production.look see >>= f) (Production.look see >>= f') :=
  fun hm hg hf => h hm hm hg hf

/-- A look that sees the same in both texts. -/
theorem look_same {see : Cursor → α} (hv : Meets stop c c' → see c = see c')
    (h : Parallel stop Q s e c c' (f (see c)) (f' (see c))) :
    Parallel stop Q s e c c' (Production.look see >>= f) (Production.look see >>= f') := by
  apply look
  intro hm
  rw [← hv hm]
  exact h

/-- A look at the kind of the next lexeme. -/
theorem look_kind {f : Kind → Production γ} (hf : f .rightBrace = f .eof)
    (h : Parallel stop Q s e c c' (f c.kind) (f c.kind)) :
    Parallel stop Q s e c c' (Production.look Cursor.kind >>= f)
      (Production.look Cursor.kind >>= f) := by
  apply look
  intro hm
  have hview : f c.kind = f c'.kind := hm.view f hf 0
  rw [← hview]
  exact h

theorem ite {b : Bool} {q q' : Production α} (ht : b = true → Parallel stop R s e c c' p p')
    (hf : b = false → Parallel stop R s e c c' q q') :
    Parallel stop R s e c c' (if b = true then p else q) (if b = true then p' else q') := by
  cases b with
  | false => exact hf rfl
  | true => exact ht rfl

theorem map {g g' : α → γ} (h : Parallel stop R s e c c' p p')
    (hg : ∀ {t a a'}, R s t a a' → Q s t (g a) (g' a')) :
    Parallel stop Q s e c c' (g <$> p) (g' <$> p') := by
  intro hm hgood hf
  rw [Production.map_apply] at hgood hf
  rw [Production.map_apply, Production.map_apply]
  have hsame := h hm ⟨hgood.clean, hgood.faultless⟩ hf
  exact ⟨hg hsame.value, hsame.rest, hsame.errors, hsame.warnings⟩

/-- Nothing is asked where the longer text goes wrong. -/
theorem of_bad (h : ¬(p c).Good) : Parallel stop R s e c c' p p' :=
  fun _ hg _ => absurd hg h

end Parallel

namespace Steady

theorem optional (h : Steady stop R p) {b : Bool} :
    Steady stop (LeftOption R) (Production.optional b p) := by
  intro c c' e
  cases b with
  | false => exact .done .none
  | true => exact (h c c' e).map .some

end Steady

/-! ## Pieces -/

open Production

theorem advance_min (c : Cursor) (count : Nat) :
    c.advance (min count c.ahead.length) = c.advance count := by
  rcases Nat.le_total count c.ahead.length with h | h
  · rw [Nat.min_eq_left h]
  · rw [Nat.min_eq_right h]
    simp [Cursor.advance, List.take_of_length_le h, List.drop_of_length_le h]

theorem faults_takeRun_nil {kind : Kind} {count : Nat} (h : (takeRun kind count c).faults = []) :
    0 < count ∧ count ≤ c.ahead.length := by
  cases ht : c.ahead.take count with
  | nil => simp [takeRun, ht] at h
  | cons first more =>
    simp only [takeRun, ht] at h
    refine ⟨Nat.pos_of_ne_zero fun h0 => ?_, Pairing.pastEnd_eq_nil h⟩
    simp [h0] at ht

/-- A run that goes on behind the end of the shorter text stops there in that text. -/
theorem parallel_takeRun {kind : Kind} {count : Nat} :
    Parallel stop LeftDraft ⟨c'.ahead.length, e⟩ e c c' (takeRun kind count)
      (takeRun kind (min count c'.ahead.length)) := by
  intro hm _ hf
  obtain ⟨braces, hahead, -⟩ := hm.ahead
  obtain ⟨hpos, -⟩ := faults_takeRun_nil hf
  obtain ⟨k, rfl⟩ : ∃ k, count = k + 1 := ⟨count - 1, by omega⟩
  obtain ⟨l, rest, hl⟩ := List.exists_cons_of_length_pos (by omega : 0 < c'.ahead.length)
  have hlong : (takeRun kind (k + 1) c).value
      = .token (.run kind l ((rest ++ braces).take k)) := by
    simp [takeRun, hahead, hl]
  have hshort : (takeRun kind (min (k + 1) c'.ahead.length) c').value
      = .token (.run kind l (((rest ++ braces).take k).take rest.length)) := by
    have hmin : min (k + 1) c'.ahead.length = min k rest.length + 1 := by
      rw [hl, List.length_cons]
      omega
    rw [List.take_take, Nat.min_comm rest.length, hmin]
    simp only [takeRun, hl, List.take_succ_cons]
    rw [List.take_append_of_le_length (Nat.min_le_right ..)]
  refine ⟨?_, ?_, ?_, ?_⟩
  · rw [hlong, hshort, Pairing.reports_takeRun, Pairing.rest_takeRun, Cursor.length_advance, hl,
      List.length_cons]
    have hrest : rest.length + 1 - min (k + 1) (rest.length + 1)
        = rest.length - ((rest ++ braces).take k).length := by
      rw [List.length_take, List.length_append]
      omega
    rw [hrest]
    exact .token .kept
  · rw [Pairing.rest_takeRun, Pairing.rest_takeRun, advance_min]
    exact hm.advance (k + 1)
  · rw [Pairing.reports_takeRun]
    simp [Diagnostic.errors]
  · rw [Pairing.reports_takeRun, Pairing.reports_takeRun]
    rfl

/-- What is taken of the shorter text is there. -/
theorem steady_takeRun (kind : Kind) (count : Nat) :
    Steady stop LeftDraft (takeRun kind count) := by
  intro c c' e hm hg hf
  obtain ⟨-, hle⟩ := faults_takeRun_nil hf
  have hmin : min count c'.ahead.length = count := Nat.min_eq_left hle
  have hrun := @parallel_takeRun stop e c c' kind count
  rw [hmin] at hrun
  exact hrun hm hg hf

theorem steady_takeAs (kind : Kind) : Steady stop LeftDraft (takeAs kind) := steady_takeRun kind 1

theorem ahead_ne_nil_of_take (h : (take c).faults = []) : c.ahead ≠ [] := by
  intro hnil
  have hle := (faults_takeRun_nil h).2
  rw [hnil] at hle
  exact Nat.not_succ_le_zero 0 hle

theorem steady_take : Steady stop LeftDraft take := by
  intro c c' e hm hg hf
  have hkind := hm.kind_eq (ahead_ne_nil_of_take hf)
  have hrun := @steady_takeAs stop c.kind c c' e
  unfold take at hg hf ⊢
  rw [← hkind] at hf ⊢
  exact hrun hm hg hf

/-! ## What is there or missing -/

theorem bad_report {p : Problem} (hp : p.severity = .error) (c : Cursor) : ¬(report p c).Good :=
  Pairing.not_good_of_error (List.mem_singleton_self _) (Pairing.isError_reportAt hp _)

/-- An error that tells what was seen. -/
theorem bad_look {see : Cursor → α} {p : α → Problem} {f : α → Unit → Production γ}
    (hp : ∀ a, (p a).severity = .error) (c : Cursor) :
    ¬((Production.look see >>= fun a => report (p a) >>= f a) c).Good :=
  Pairing.not_good_of_error (d := (p (see c)).reportAt c.span)
    (by simp [Production.look, report]) (Pairing.isError_reportAt (hp _) _)

theorem bad_reportGap {p : Problem} (hp : p.severity = .error) (c : Cursor) :
    ¬(reportGap p c).Good :=
  Pairing.not_good_of_error (List.mem_singleton_self _) (Pairing.isError_reportAt hp _)

theorem bad_lacking (kind : Kind) {p : Problem} (hp : p.severity = .error) (c : Cursor) :
    ¬(lacking kind p c).Good :=
  Pairing.not_good_bind (bad_reportGap hp c)

theorem bad_absent (kind : Kind) (c : Cursor) : ¬(absent kind c).Good := bad_lacking kind rfl c

/-- A closing brace behind the end of the shorter text is missing in it. -/
theorem parallel_expect_lost (hnil : c'.ahead = []) (hk : c.kind = .rightBrace) :
    Parallel stop LeftDraft ⟨c'.ahead.length, e⟩ e c c' (expect .rightBrace)
      (expect .rightBrace) := by
  intro hm _ _
  obtain ⟨l, rest, hc, hl⟩ := Cursor.exists_ahead (c := c) (by simp [hk])
  have hend : c'.kind = .eof := by
    rw [Cursor.kind, Cursor.kindAt, hnil]
    rfl
  have hlong : expect .rightBrace c
      = ⟨.token (.run .rightBrace l []), c.advance 1, [], []⟩ := by
    rw [show expect .rightBrace c = take c by simp [expect, sees, holds, Production.look, hk],
      take, hk]
    simp [takeAs, takeRun, hc, pastEnd]
  have hshort : expect .rightBrace c' = ⟨.missing .rightBrace, c', [lack stop], []⟩ := by
    rw [show expect .rightBrace c' = absent .rightBrace c' by
      simp [expect, sees, holds, Production.look, hend]]
    simp [absent, lacking, reportGap, hm.gap_eq hnil, lack]
  have herror : (lack stop).isError = true := Pairing.isError_reportAt rfl _
  have hnext : Meets stop (c.advance 1) c' := by
    have hmeets := hm.advance 1
    rwa [show c'.advance 1 = c' by
      rw [← advance_min, hnil, List.length_nil, Nat.min_zero, Cursor.advance_zero]] at hmeets
  rw [hlong, hshort]
  refine ⟨?_, hnext, ?_, ?_⟩
  · simp only [Diagnostic.errors, List.filter_cons, herror, if_true, List.filter_nil, hnil]
    exact .token .lost
  · simp [Diagnostic.errors, herror]
  · simp [Diagnostic.warnings, herror]

/-- What is there in the longer text is there in the shorter one, unless it is a closing brace behind
its end. -/
theorem steady_expect (kind : Kind) : Steady stop LeftDraft (expect kind) := by
  intro c c' e
  refine .look fun hm => ?_
  by_cases hk : c.kind = kind
  · by_cases hnil : c'.ahead = []
    · rcases hm.kind_of_end hnil with hb | hend
      · obtain rfl : .rightBrace = kind := hb.symm.trans hk
        exact parallel_expect_lost hnil hb
      · rw [decide_eq_true hk]
        exact .of_bad fun hg => ahead_ne_nil_of_take hg.faultless hend
    · rw [← hm.kind_eq hnil]
      exact .ite (fun _ => steady_take c c' e) fun _ => .of_bad (bad_absent kind c)
  · rw [decide_eq_false hk]
    exact .of_bad (bad_absent kind c)

theorem steady_accept {kind : Kind} (hb : kind ≠ .rightBrace) (he : kind ≠ .eof) :
    Steady stop (LeftOption LeftDraft) (accept kind) :=
  fun c c' e => .look_same (fun hm => hm.sees hb he) (steady_take.optional c c' e)

/-! ## Names -/

theorem contains_nameStarts_end :
    nameStarts.contains .rightBrace = false ∧ nameStarts.contains .eof = false := by
  decide

theorem Meets.contains_nameStarts (h : Meets stop c c') :
    nameStarts.contains c.kind = nameStarts.contains c'.kind :=
  h.contains (contains_nameStarts_end.1.trans contains_nameStarts_end.2.symm)

theorem steady_expectName : Steady stop LeftDraft expectName :=
  fun c c' e => .look_same Meets.contains_nameStarts
    (.ite (fun _ => steady_takeAs .identifier c c' e) fun _ => .of_bad (bad_absent .identifier c))

theorem steady_optionalName : Steady stop (LeftOption LeftDraft) optionalName :=
  fun c c' e => .look_same Meets.contains_nameStarts ((steady_takeAs .identifier).optional c c' e)

theorem Meets.owned (h : Meets stop c c') :
    (decide (c.kind = .period) && (c.kindAt 1).isName)
      = (decide (c'.kind = .period) && (c'.kindAt 1).isName) := by
  rw [h.sees (by decide) (by decide), h.view Kind.isName rfl 1]

theorem steady_qualifiedName (kind : Kind) : Steady stop LeftDraft (qualifiedName kind) := by
  intro c c' e
  refine .bind (steady_expectName c c' e) fun first first' c₁ c₁' e₁ hfirst => ?_
  refine .look_same Meets.owned (.ite (fun _ => ?_) fun _ => ?_)
  · refine .bind (steady_take c₁ c₁' e₁) fun period period' c₂ c₂' e₂ hperiod => ?_
    refine .bind (steady_takeAs .identifier c₂ c₂' e₂) fun name name' c₃ c₃' e₃ hname => ?_
    exact .done (.composite (.cons (.some hfirst) (.cons (.some hperiod) (.single (.some hname)))))
  · exact .done (.composite (.cons .none (.cons .none (.single (.some hfirst)))))

theorem steady_qualifier : Steady stop (LeftOption LeftDraft) qualifier := by
  intro c c' e
  refine .look_kind rfl ?_
  split
  · exact (steady_take c c' e).map .some
  · exact .look_same (fun hm => hm.view (fun k => decide (k = .importantKeyword)) rfl 1)
      ((steady_takeRun .importantKeyword 2).optional c c' e)
  · exact .done .none

end Unclosed

end Stylesheet
