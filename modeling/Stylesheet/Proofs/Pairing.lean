import Stylesheet.Proofs.Recognition
import Stylesheet.Proofs.Shapes

/-!
# Two texts side by side

Two texts are paired when their lexemes have the same kinds in the same order; the second one may
go on behind the end of the first. Where both texts have been read up to the same lexeme, a
production does the same on both of them: it makes pieces of the same kinds from equally many
lexemes, stops at the same lexeme, and has the same to say.

Where the second text goes on, this holds only of what is read without an error, and only if
enough is left of the first text: a production that looks some lexemes on must not look past its
end. So a production comes with two numbers, the lexemes it needs ahead where it stops and the ones
it reads at least. The lexemes ahead where it starts are then no fewer than both together.

Results:
* `Pairing.Meets`: two cursors behind equally many lexemes.
* `Pairing.Parallel.bind`: one production after the other, where the second one may need as much as
  it reads.
* `Pairing.Parallel.look`: what is seen is the same, if it is near enough.
-/
namespace Stylesheet

/-! ## Readings without error -/

/-- Nothing went wrong: no error, and no fault. -/
structure Outcome.Good {α : Type} (o : Outcome α) : Prop where
  clean : o.Clean
  faultless : o.faults = []

theorem Outcome.good_append {α β γ : Type} {o : Outcome α} {o₂ : Outcome β} {v : γ} {c : Cursor} :
    Outcome.Good ⟨v, c, o.reports ++ o₂.reports, o.faults ++ o₂.faults⟩ ↔ o.Good ∧ o₂.Good := by
  constructor
  · rintro ⟨hclean, hfault⟩
    obtain ⟨hc₁, hc₂⟩ := Outcome.clean_append.mp hclean
    obtain ⟨hf₁, hf₂⟩ := List.append_eq_nil_iff.mp hfault
    exact ⟨⟨hc₁, hf₁⟩, hc₂, hf₂⟩
  · rintro ⟨⟨hc₁, hf₁⟩, hc₂, hf₂⟩
    exact ⟨Outcome.clean_append.mpr ⟨hc₁, hc₂⟩, by simp [hf₁, hf₂]⟩

/-! ## Cursors side by side -/

namespace Cursor

@[simp] theorem ahead_advance (c : Cursor) (n : Nat) : (c.advance n).ahead = c.ahead.drop n := rfl

theorem length_advance (c : Cursor) (n : Nat) :
    (c.advance n).ahead.length = c.ahead.length - n := by simp

/-- The kinds of the lexemes ahead. -/
def kinds (c : Cursor) : List Kind := c.ahead.map Lexeme.kind

theorem length_kinds (c : Cursor) : c.kinds.length = c.ahead.length := List.length_map ..

theorem kindAt_eq (c : Cursor) (n : Nat) : c.kindAt n = (c.kinds[n]?).getD .eof := by
  simp [kindAt, Lexeme.kindAt, kinds]

/-- Where it matters whether the next lexeme touches the one before it. -/
def TouchMatters (c : Cursor) : Prop :=
  c.kind ∈ [Kind.period, .hash, .colon, .exclamationMark] ∨
    c.kind.isName ∧ ∃ l, c.behind = some l ∧ l.kind ∈ [Kind.period, .hash, .colon]

/-- What is reported of a word as a loop behavior. -/
def loopReports (c : Cursor) : List Diagnostic :=
  if Production.isLoopBehavior c.next.text then []
  else [(Problem.unknownLoopBehavior c.next.text).reportAt c.span]

end Cursor

/-- Two texts with the same lexemes, as far as productions can tell. The second text may go on
where the first one ends. -/
structure Pairing where
  first : Cursor
  second : Cursor
  /-- The kinds of the lexemes by which the second text goes on. -/
  more : List Kind
  /-- Whether the texts end together. Else only what is read without an error counts. -/
  Whole : Prop
  /-- Lists of reports that say the same of the two texts. -/
  Alike : List Diagnostic → List Diagnostic → Prop
  kinds_eq : second.kinds = first.kinds ++ more
  more_eq_nil : Whole → more = []
  touching_eq : ∀ i, (first.advance i).TouchMatters →
    (first.advance i).touching = (second.advance i).touching
  alike_nil : Alike [] []
  alike_append : ∀ {a b a' b'}, Alike a a' → Alike b b' → Alike (a ++ b) (a' ++ b')
  /-- A problem may quote the text of the next lexeme. -/
  alike_span : Whole → ∀ i (p : Text → Problem), (∀ t u, (p t).code = (p u).code) →
    Alike [(p (first.advance i).next.text).reportAt (first.advance i).span]
      [(p (second.advance i).next.text).reportAt (second.advance i).span]
  alike_gap : Whole → ∀ i (p : Problem),
    Alike [p.reportAt (first.advance i).gap] [p.reportAt (second.advance i).gap]
  alike_loop : ∀ i, Whole ∨ i < first.ahead.length →
    Alike (first.advance i).loopReports (second.advance i).loopReports

namespace Pairing

variable {K : Pairing} {c c' : Cursor} {i n m r k j : Nat}

/-- Both cursors stand behind equally many lexemes of their texts. -/
def Meets (K : Pairing) (c c' : Cursor) : Prop :=
  ∃ i, c = K.first.advance i ∧ c' = K.second.advance i ∧ (K.Whole ∨ i ≤ K.first.ahead.length)

theorem meets_start (K : Pairing) : K.Meets K.first K.second :=
  ⟨0, by simp, by simp, .inr (Nat.zero_le _)⟩

theorem Meets.advance (h : K.Meets c c') (hn : K.Whole ∨ n ≤ c.ahead.length) :
    K.Meets (c.advance n) (c'.advance n) := by
  obtain ⟨i, rfl, rfl, hi⟩ := h
  refine ⟨i + n, Cursor.advance_advance .., Cursor.advance_advance .., ?_⟩
  rcases hi with hw | hi
  · exact .inl hw
  · rcases hn with hw | hn
    · exact .inl hw
    · rw [Cursor.length_advance] at hn
      exact .inr (by omega)

/-- What is ahead in the second text is what is ahead in the first one, and more. -/
theorem Meets.kinds (h : K.Meets c c') : c'.kinds = c.kinds ++ K.more := by
  obtain ⟨i, rfl, rfl, hi⟩ := h
  have hdrop : (K.second.advance i).kinds = (K.first.kinds ++ K.more).drop i := by
    rw [← K.kinds_eq]
    simp [Cursor.kinds, List.map_drop]
  have hfirst : (K.first.advance i).kinds = K.first.kinds.drop i := by
    simp [Cursor.kinds, List.map_drop]
  rw [hdrop, hfirst]
  rcases hi with hw | hi
  · simp [K.more_eq_nil hw]
  · exact List.drop_append_of_le_length (K.first.length_kinds ▸ hi)

theorem Meets.length (h : K.Meets c c') : c'.ahead.length = c.ahead.length + K.more.length := by
  rw [← c'.length_kinds, h.kinds, List.length_append, c.length_kinds]

theorem Meets.length_whole (h : K.Meets c c') (hw : K.Whole) : c'.ahead.length = c.ahead.length := by
  rw [h.length, K.more_eq_nil hw]
  rfl

theorem Meets.kindAt (h : K.Meets c c') (hn : K.Whole ∨ n < c.ahead.length) :
    c.kindAt n = c'.kindAt n := by
  rw [Cursor.kindAt_eq, Cursor.kindAt_eq, h.kinds]
  rcases hn with hw | hn
  · rw [K.more_eq_nil hw, List.append_nil]
  · rw [List.getElem?_append_left (by rwa [c.length_kinds])]

theorem Meets.touching (h : K.Meets c c') (ht : c.TouchMatters) : c.touching = c'.touching := by
  obtain ⟨i, rfl, rfl, -⟩ := h
  exact K.touching_eq i ht

/-! ## What is seen -/

/-- A view sees the same in both texts where so many lexemes are ahead. -/
def Sees (K : Pairing) {α : Type} (view : Cursor → α) (n : Nat) : Prop :=
  ∀ c c', K.Meets c c' → K.Whole ∨ n ≤ c.ahead.length → view c = view c'

theorem sees_kindAt (K : Pairing) (n : Nat) : K.Sees (·.kindAt n) (n + 1) :=
  fun _ _ h hn => h.kindAt hn

theorem sees_kind (K : Pairing) : K.Sees Cursor.kind 1 := K.sees_kindAt 0

theorem Sees.comp {α β : Type} {view : Cursor → α} (h : K.Sees view n) (f : α → β) :
    K.Sees (fun c => f (view c)) n :=
  fun c c' hm hn => congrArg f (h c c' hm hn)

theorem Sees.and {a b : Cursor → Bool} (ha : K.Sees a n) (hb : K.Sees b m) :
    K.Sees (fun c => a c && b c) (max n m) := by
  intro c c' h hn
  have ha := ha c c' h (hn.imp_right fun hn => by omega)
  have hb := hb c c' h (hn.imp_right fun hn => by omega)
  show (a c && b c) = (a c' && b c')
  rw [ha, hb]

/-- Touching is the same where it matters. -/
theorem sees_touching (K : Pairing) {s : Kind → Bool}
    (hs : ∀ k, s k → k ∈ [Kind.period, .hash, .colon, .exclamationMark]) :
    K.Sees (fun c => c.touching && s c.kind) 1 := by
  intro c c' h hn
  have hkind : c.kind = c'.kind := K.sees_kind c c' h hn
  show (c.touching && s c.kind) = (c'.touching && s c'.kind)
  rw [← hkind]
  cases hin : s c.kind with
  | false => rw [Bool.and_false, Bool.and_false]
  | true => rw [h.touching (.inl (hs _ hin))]

theorem sees_is (K : Pairing) (kind : Kind) : K.Sees (fun c => decide (c.kind = kind)) 1 :=
  K.sees_kind.comp fun k => decide (k = kind)

theorem sees_contains (K : Pairing) (kinds : KindSet) : K.Sees (fun c => kinds.contains c.kind) 1 :=
  K.sees_kind.comp kinds.contains

/-! ## Productions side by side -/

/-- Two outcomes that differ in no more than what a view does not show, and in what belongs to
their own text. -/
structure Same (K : Pairing) {α β : Type} (view : α → β) (o o' : Outcome α) : Prop where
  value : view o.value = view o'.value
  rest : K.Meets o.rest o'.rest
  reports : K.Alike o.reports o'.reports

/-- A production at one cursor and another production at another do the same, where `margin`
lexemes are left ahead. They read `count` lexemes at least. -/
structure Parallel (K : Pairing) {α β : Type} (view : α → β) (margin count : Nat) (c c' : Cursor)
    (p p' : Production α) : Prop where
  reads : (p c).Good → (p c).rest.ahead.length + count ≤ c.ahead.length
  same : K.Meets c c' → (K.Whole ∨ (p c).Good ∧ margin ≤ (p c).rest.ahead.length) →
    K.Same view (p c) (p' c')

/-- Two productions do the same wherever they start together. -/
def Together (K : Pairing) {α β : Type} (view : α → β) (margin count : Nat) (p p' : Production α) :
    Prop :=
  ∀ c c', K.Parallel view margin count c c' p p'

/-- A production does the same in both texts. -/
def Steady (K : Pairing) {α β : Type} (view : α → β) (margin count : Nat) (p : Production α) :
    Prop :=
  ∀ c c', K.Parallel view margin count c c' p p

variable {α β γ δ : Type} {view : α → β} {other : γ → δ} {p p' : Production α}
  {f f' : α → Production γ}

namespace Parallel

/-- More may be left ahead, and fewer lexemes read. -/
theorem weaken (h : K.Parallel view k j c c' p p') (hm : k ≤ m) (hr : r ≤ j) :
    K.Parallel view m r c c' p p' := by
  refine ⟨fun hg => ?_, fun hc hg => h.same hc (hg.imp_right fun hg => ⟨hg.1, by omega⟩)⟩
  have := h.reads hg
  omega

/-- Nothing is read any more. -/
theorem done {a a' : α} (hr : r = 0) (h : view a = view a') :
    K.Parallel view m r c c' (pure a) (pure a') := by
  refine ⟨fun _ => ?_, fun hc _ => ⟨h, hc, K.alike_nil⟩⟩
  show c.ahead.length + r ≤ c.ahead.length
  omega

/-- One production after the other. -/
theorem bind (hk : k ≤ m + (r - j)) (h₁ : K.Parallel view k j c c' p p')
    (h₂ : ∀ a' c₁', view (p c).value = view a' →
      K.Parallel other m (r - j) (p c).rest c₁' (f (p c).value) (f' a')) :
    K.Parallel other m r c c' (p >>= f) (p' >>= f') := by
  -- The second production reads `r - j` lexemes and leaves `m`: these are ahead of the first one.
  have hreads (hg : ((p >>= f) c).Good) : (p c).Good ∧
      (f (p c).value (p c).rest).Good ∧
      (f (p c).value (p c).rest).rest.ahead.length + (r - j) ≤ (p c).rest.ahead.length := by
    rw [Production.bind_apply] at hg
    obtain ⟨hfirst, hsecond⟩ := Outcome.good_append.mp hg
    exact ⟨hfirst, hsecond, (h₂ (p c).value (p c).rest rfl).reads hsecond⟩
  refine ⟨fun hg => ?_, fun hc hg => ?_⟩
  · obtain ⟨hfirst, -, hle⟩ := hreads hg
    have := h₁.reads hfirst
    rw [Production.bind_apply]
    show (f (p c).value (p c).rest).rest.ahead.length + r ≤ c.ahead.length
    omega
  · obtain ⟨hvalue, hrest, hreports⟩ := h₁.same hc (hg.imp_right fun hg => by
      obtain ⟨hfirst, -, hle⟩ := hreads hg.1
      refine ⟨hfirst, ?_⟩
      have hlen : m ≤ (f (p c).value (p c).rest).rest.ahead.length := hg.2
      omega)
    obtain ⟨hvalue₂, hrest₂, hreports₂⟩ := (h₂ _ (p' c').rest hvalue).same hrest
      (hg.imp_right fun hg => ⟨(hreads hg.1).2.1, hg.2⟩)
    exact ⟨hvalue₂, hrest₂, K.alike_append hreports hreports₂⟩

/-- A look, where what is seen is near enough. -/
theorem look {see : Cursor → α}
    (hv : K.Meets c c' → K.Whole ∨ m + r ≤ c.ahead.length → see c = see c')
    (h : K.Parallel other m r c c' (f (see c)) (f' (see c))) :
    K.Parallel other m r c c' (Production.look see >>= f) (Production.look see >>= f') := by
  refine ⟨fun hg => h.reads hg, fun hc hg => ?_⟩
  have hsee : see c = see c' := hv hc (hg.imp_right fun hg => by
    have := h.reads hg.1
    have hlen : m ≤ (f (see c) c).rest.ahead.length := hg.2
    omega)
  have hsame := h.same hc hg
  rw [hsee] at hsame
  show K.Same other (f (see c) c) (f' (see c') c')
  rw [hsee]
  exact hsame

/-- What goes wrong is the same where the texts end together. -/
theorem of_bad (hb : ¬(p c).Good) (h : K.Whole → K.Meets c c' → K.Same view (p c) (p' c')) :
    K.Parallel view m r c c' p p' :=
  ⟨fun hg => absurd hg hb, fun hc hg => h (hg.resolve_right fun hg => hb hg.1) hc⟩

/-- What is made of what was read. -/
theorem map {g : α → γ} {g' : α → γ} (h : K.Parallel view m r c c' p p')
    (hg : ∀ a a', view a = view a' → other (g a) = other (g' a')) :
    K.Parallel other m r c c' (g <$> p) (g' <$> p') := by
  refine ⟨fun hgood => ?_, fun hc hgood => ?_⟩
  · rw [Production.map_apply] at hgood ⊢
    exact h.reads ⟨hgood.clean, hgood.faultless⟩
  · rw [Production.map_apply] at hgood ⊢
    rw [Production.map_apply]
    obtain ⟨hvalue, hrest, hreports⟩ := h.same hc
      (hgood.imp_right fun hgood => ⟨⟨hgood.1.clean, hgood.1.faultless⟩, hgood.2⟩)
    exact ⟨hg _ _ hvalue, hrest, hreports⟩

end Parallel

namespace Together

theorem done {a a' : α} (hr : r = 0) (h : view a = view a') :
    K.Together view m r (pure a) (pure a') :=
  fun _ _ => .done hr h

theorem bind (hk : k ≤ m + (r - j)) (h₁ : K.Steady view k j p)
    (h₂ : ∀ a a', view a = view a' → K.Together other m (r - j) (f a) (f' a')) :
    K.Together other m r (p >>= f) (p >>= f') :=
  fun c c' => .bind hk (h₁ c c') fun a' c₁' h => h₂ _ a' h _ c₁'

theorem first {a a' : α} (h : K.Together other m r (f a) (f' a')) :
    K.Together other m r (pure a >>= f) (pure a' >>= f') :=
  h

theorem look {see : Cursor → α} (hn : n ≤ m + r) (hv : K.Sees see n)
    (h : ∀ a, K.Together other m r (f a) (f' a)) :
    K.Together other m r (Production.look see >>= f) (Production.look see >>= f') :=
  fun c c' => .look (fun hm hl => hv c c' hm (hl.imp_right fun hl => by omega)) (h _ c c')

theorem ite {b : Bool} {q q' : Production α} (ht : b = true → K.Together view m r p p')
    (hf : b = false → K.Together view m r q q') :
    K.Together view m r (if b = true then p else q) (if b = true then p' else q') := by
  cases b with
  | false => exact hf rfl
  | true => exact ht rfl

end Together

namespace Steady

theorem weaken (h : K.Steady view k j p) (hm : k ≤ m) (hr : r ≤ j) :
    K.Steady view m r p :=
  fun c c' => (h c c').weaken hm hr

theorem bind (hk : k ≤ m + (r - j)) (h₁ : K.Steady view k j p)
    (h₂ : ∀ a a', view a = view a' → K.Together other m (r - j) (f a) (f a')) :
    K.Steady other m r (p >>= f) :=
  Together.bind hk h₁ h₂

theorem look {see : Cursor → α} (hn : n ≤ m + r) (hv : K.Sees see n)
    (h : ∀ a, K.Steady other m r (f a)) : K.Steady other m r (Production.look see >>= f) :=
  Together.look hn hv h

theorem ite {b : Bool} {q : Production α} (ht : b = true → K.Steady view m r p)
    (hf : b = false → K.Steady view m r q) : K.Steady view m r (if b = true then p else q) :=
  Together.ite ht hf

/-- What is left out where a condition does not hold. -/
theorem optional (h : K.Steady view k j p) {b : Bool} :
    K.Steady (Option.map view) k 0 (Production.optional b p) := by
  cases b with
  | false => exact fun _ _ => .done rfl rfl
  | true =>
    exact fun c c' => ((h c c').weaken k.le_refl (Nat.zero_le j)).map fun a a' he => by simp [he]

end Steady

end Pairing

end Stylesheet
