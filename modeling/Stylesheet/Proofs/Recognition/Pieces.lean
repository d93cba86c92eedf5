import Stylesheet.Proofs.Reading.Pieces
import Stylesheet.Proofs.Recognition

/-!
# Recognizing pieces

Results:
* `take_recognizes`, `expect_recognizes`, `optional_recognizes`: the productions that all others are
  made of.
* `expectName_recognizes`, `qualifiedName_recognizes`, `qualifier_recognizes`: names and qualifiers.
-/
namespace Stylesheet.Production

open Grammar

variable {α : Type} {c : Cursor} {L : Language Sign} {P : Sign → Prop} {F : Cursor → Prop}

/-! ## One lexeme -/

/-- Reading so many lexemes recognizes a language where they are a word, and no word that could
stand there has another length. -/
theorem run_recognizes {v : α} {count : Nat}
    (hs : Lexeme.signs c.behind (c.ahead.take count) ∈ L)
    (hl : ∀ {ss c'}, ss ∈ L → c.Spells ss c' → F c' → ss.length = count) :
    Outcome.Recognizes ⟨v, c.advance count, [], []⟩ c L F := by
  refine ⟨fun _ => ⟨_, hs, c.ahead.take count, c.passes_take count, rfl⟩, fun hm hc hF => ?_⟩
  refine ⟨by simp [Outcome.Clean], ?_⟩
  rw [hc.end_eq, hl hm hc hF]

/-- Reading one lexeme recognizes what it is. -/
theorem one_recognizes {v : α} {l : Lexeme} {rest : List Lexeme} (h : c.ahead = l :: rest)
    (hp : P c.sign) : Outcome.Recognizes ⟨v, c.advance 1, [], []⟩ c (sign P) F := by
  have hpass := Cursor.passes_one h
  refine run_recognizes ⟨c.sign, hp, ?_⟩ ?_
  · rw [Cursor.sign, hpass.kind_eq, Cursor.touching, hpass.next_eq, h]
    rfl
  · rintro ss c' ⟨s, -, rfl⟩ - -
    rfl

theorem take_recognizes (he : c.kind ≠ .eof) (hp : P c.sign) :
    (take c).Recognizes c (sign P) F := by
  obtain ⟨l, rest, hc, -⟩ := Cursor.exists_ahead he
  rw [take_apply hc]
  exact one_recognizes hc hp

theorem takeKind_recognizes {kind : Kind} (h : c.kind = kind) (he : kind ≠ .eof) :
    (take c).Recognizes c (one kind) F :=
  take_recognizes (h ▸ he) h

/-- What is missing is an error. -/
theorem lacking_not_clean (kind : Kind) {p : Problem} (hp : p.severity = .error) (c : Cursor) :
    ¬(lacking kind p c).Clean :=
  Outcome.not_clean (d := p.reportAt c.gap) (by simp [lacking, reportGap])
    (by simp [Problem.reportAt, Diagnostic.isError, hp])

theorem absent_recognizes {kind : Kind} (hl : Opens L P) (hp : ¬P c.sign) :
    (absent kind c).Recognizes c L F :=
  .refuse (lacking_not_clean kind rfl c) fun hs hc _ => hp (hl.sign hs hc)

theorem kind_of_expect {kind : Kind} (h : (expect kind c).Clean) : c.kind = kind := by
  by_contra hn
  rw [expect_of_ne hn] at h
  exact lacking_not_clean kind rfl c h

theorem expect_recognizes {kind : Kind} (he : kind ≠ .eof) (c : Cursor) :
    (expect kind c).Recognizes c (one kind) F := by
  by_cases h : c.kind = kind
  · rw [expect_of_kind h]
    exact takeKind_recognizes h he
  · rw [expect_of_ne h]
    exact absent_recognizes (opens_one kind) h

/-! ## What may be left out -/

/-- A production under a condition on the next sign. It is left out only where what follows does
not meet the condition. -/
theorem optional_recognizes {condition : Bool} {p : Production α}
    (hc : condition = true ↔ P c.sign) (hl : Opens L P)
    (hp : condition = true → (p c).Recognizes c L F) (hF : ∀ c, F c → ¬P c.sign) :
    (optional condition p c).Recognizes c (maybe L) F := by
  cases condition with
  | false =>
    rw [optional_false]
    refine (Outcome.Recognizes.nothing none c).widen (fun _ h => .inl h) fun hs hsp _ => ?_
    refine hs.elim (fun h => h) fun h => ?_
    exact absurd (hc.mpr (hl.sign h hsp)) (by simp)
  | true =>
    rw [optional_true]
    have hone := hp rfl
    refine Outcome.Recognizes.widen ⟨hone.sound, hone.complete⟩ (fun _ h => .inr h)
      fun hs hsp hf => ?_
    refine hs.elim (fun h => ?_) fun h => h
    cases (Language.mem_one ..).mp h
    exact absurd (hc.mp rfl) (hF _ (hsp.nil ▸ hf))

/-- A production that is left out where a kind does not come next. -/
theorem optionalKind_recognizes {kind : Kind} {p : Production α} (hl : Opens L (·.kind = kind))
    (hp : c.kind = kind → (p c).Recognizes c L fun _ => True) :
    (optional (decide (c.kind = kind)) p c).Recognizes c (maybe L) fun c => c.kind ≠ kind :=
  optional_recognizes decide_eq_true_iff hl
    (fun h => (hp (of_decide_eq_true h)).before fun _ _ => trivial) fun _ h => h

theorem accept_of_ne {kind : Kind} (h : c.kind ≠ kind) : accept kind c = ⟨none, c, [], []⟩ := by
  have hx : accept kind c = optional (decide (c.kind = kind)) take c := rfl
  rw [hx, decide_eq_false h, optional_false]

theorem accept_of_kind {kind : Kind} (h : c.kind = kind) : accept kind c = (some <$> take) c := by
  have hx : accept kind c = optional (decide (c.kind = kind)) take c := rfl
  rw [hx, decide_eq_true h, optional_true, map_apply]

theorem accept_recognizes {kind : Kind} (he : kind ≠ .eof) (c : Cursor) :
    (accept kind c).Recognizes c (maybe (one kind)) fun c => c.kind ≠ kind := by
  have hx : accept kind c = optional (decide (c.kind = kind)) take c := rfl
  rw [hx]
  exact optionalKind_recognizes (opens_one kind) fun h => takeKind_recognizes h he

/-! ## Names -/

theorem takeName_recognizes (h : c.kind.isName) : (takeAs .identifier c).Recognizes c name F := by
  obtain ⟨l, rest, hc, -⟩ := Cursor.exists_ahead (ne_eof_of_isName h)
  rw [takeAs_apply _ hc]
  exact one_recognizes hc h

theorem expectName_recognizes (c : Cursor) : (expectName c).Recognizes c name F := by
  by_cases h : c.kind.isName
  · rw [expectName_of_isName h]
    exact takeName_recognizes h
  · rw [expectName_of_not h]
    exact absent_recognizes opens_sign h

theorem optionalName_recognizes (c : Cursor) :
    (optionalName c).Recognizes c (maybe name) fun c => ¬c.kind.isName := by
  have hx : optionalName c = optional (nameStarts.contains c.kind) (takeAs .identifier) c := rfl
  rw [hx]
  exact optional_recognizes (by rw [contains_nameStarts]; rfl) opens_sign
    (fun h => takeName_recognizes (contains_nameStarts _ ▸ h)) fun _ h => h

/-- Where a name would have an owner. -/
def Owned (c : Cursor) : Prop := c.kind = .period ∧ (c.kindAt 1).isName

theorem owned_of_spells {ss : List Sign} {c' : Cursor} (hs : ss ∈ one .period * name)
    (hc : c.Spells ss c') : Owned c := by
  obtain ⟨a, ⟨p, hp, rfl⟩, b, ⟨n, hn, rfl⟩, rfl⟩ := Language.mem_mul.mp hs
  refine ⟨hc.kind_eq.trans hp, ?_⟩
  rw [hc.kindAt_one]
  exact hn

theorem opens_qualifiedName : Opens Grammar.qualifiedName fun s => s.kind.isName :=
  opens_sign.add ((opens_sign.mul _).mul _)

theorem qualifiedName_owned_recognizes (kind : Kind) (h : Owned (expectName c).rest) :
    (qualifiedName kind c).Recognizes c (name * (one .period * name)) F := by
  rw [qualifiedName_owned kind h.1 h.2]
  refine .andThen (expectName_recognizes c) (.andThen (takeKind_recognizes h.1 (by decide)) (.last ?_))
  exact takeName_recognizes (kind_of_take h.2 ▸ h.2)

theorem qualifiedName_alone_recognizes (kind : Kind) (h : ¬Owned (expectName c).rest) :
    (qualifiedName kind c).Recognizes c name F := by
  rw [qualifiedName_alone kind h]
  exact .last (expectName_recognizes c)

/-- The name that a word starts with is the one that is read. -/
theorem expectName_rest {a : List Sign} {c' : Cursor} (ha : a ∈ name) (hc : c.Spells a c') :
    (expectName c).rest = c' :=
  ((expectName_recognizes (F := fun _ => True) c).complete ha hc trivial).2

theorem qualifiedName_recognizes (kind : Kind) (c : Cursor) :
    (qualifiedName kind c).Recognizes c Grammar.qualifiedName fun c => ¬Owned c := by
  by_cases h : Owned (expectName c).rest
  · refine (qualifiedName_owned_recognizes kind h).widen (fun ss hs => .inr (by rwa [mul_assoc]))
      fun hs hc hF => ?_
    refine hs.elim (fun hs => ?_) fun hs => by rwa [mul_assoc] at hs
    exact absurd (expectName_rest hs hc ▸ h) hF
  · refine (qualifiedName_alone_recognizes kind h).widen (fun ss hs => .inl hs) fun hs hc _ => ?_
    refine hs.elim (fun hs => hs) fun hs => ?_
    rw [mul_assoc] at hs
    obtain ⟨a, ha, b, hb, rfl⟩ := Language.mem_mul.mp hs
    obtain ⟨c₁, h₁, h₂⟩ := hc.split
    exact absurd (expectName_rest ha h₁ ▸ owned_of_spells hb h₂) h

/-! ## Qualifiers -/

/-- Where a qualifier stands. -/
def Qualified (c : Cursor) : Prop :=
  c.kind = .importantKeyword ∨ c.kind = .exclamationMark ∧ c.kindAt 1 = .importantKeyword

theorem qualified_of_spells {ss : List Sign} {c' : Cursor} (hs : ss ∈ Grammar.qualifier)
    (hc : c.Spells ss c') : Qualified c := by
  rcases hs with ⟨s, hs, rfl⟩ | hs
  · exact .inl (hc.kind_eq.trans hs)
  · obtain ⟨a, ⟨m, hm, rfl⟩, b, ⟨i, hi, rfl⟩, rfl⟩ := Language.mem_mul.mp hs
    exact .inr ⟨hc.kind_eq.trans hm, hc.kindAt_one.trans hi⟩

theorem opens_qualifier : Opens Grammar.qualifier fun s =>
    s.kind ∈ [Kind.importantKeyword, .exclamationMark] :=
  ((opens_one _).imp fun _ hs => by simp [hs]).add
    (((opens_one _).mul _).imp fun _ hs => by simp [hs])

theorem qualifier_bare (h : c.kind = .importantKeyword) :
    (qualifier c).Recognizes c (one .importantKeyword) F := by
  have hx : qualifier c = (some <$> take) c := by simp [Parsing.qualifier, look, h]
  rw [hx]
  exact (takeKind_recognizes h (by decide)).map

theorem qualifier_marked (h : c.kind = .exclamationMark) (hn : c.kindAt 1 = .importantKeyword) :
    (qualifier c).Recognizes c (one .exclamationMark * one .importantKeyword) F := by
  obtain ⟨l, m, rest, hc, hl, hm⟩ := Cursor.exists_ahead_two (c := c) (by simp [hn])
  have hx : qualifier c = (some <$> takeRun .importantKeyword 2) c := by
    simp [Parsing.qualifier, look, holds, optional_true, h, hn]
  have htake : c.ahead.take 2 = l :: [m] := by simp [hc]
  rw [hx]
  refine .map ?_
  rw [takeRun_apply _ htake (by simp [hc])]
  refine run_recognizes ?_ ?_
  · rw [htake]
    exact Language.mem_mul.mpr ⟨_, ⟨_, hl.trans h, rfl⟩, _, ⟨_, hm.trans hn, rfl⟩, rfl⟩
  · rintro ss c' hs - -
    obtain ⟨a, ⟨s, -, rfl⟩, b, ⟨t, -, rfl⟩, rfl⟩ := Language.mem_mul.mp hs
    rfl

theorem qualifier_none (h : ¬Qualified c) : qualifier c = ⟨none, c, [], []⟩ := by
  obtain ⟨hi, hm⟩ := not_or.mp h
  by_cases hmark : c.kind = .exclamationMark
  · have hn : c.kindAt 1 ≠ .importantKeyword := fun hn => hm ⟨hmark, hn⟩
    simp [Parsing.qualifier, look, holds, optional_false, hmark, hn]
  · rw [qualifier, Parsing.qualifier, look_first]
    generalize c.kind = k at hi hmark
    cases k <;> first | contradiction | rfl

theorem qualifier_recognizes (c : Cursor) :
    (qualifier c).Recognizes c (maybe Grammar.qualifier) fun c => ¬Qualified c := by
  have hnil {ss : List Sign} {c' : Cursor} (hs : ss ∈ (1 : Language Sign)) (hc : c.Spells ss c')
      (hF : ¬Qualified c') : ¬Qualified c := by
    cases (Language.mem_one ..).mp hs
    exact hc.nil ▸ hF
  by_cases h : Qualified c
  · rcases h with h | ⟨h, hn⟩
    · refine (qualifier_bare h).widen (fun _ hs => .inr (.inl hs)) fun hs hc hF => ?_
      rcases hs with hs | hs | hs
      · exact absurd (.inl h) (hnil hs hc hF)
      · exact hs
      · have hmark := ((opens_one _).mul _).sign hs hc
        exact absurd (hmark.symm.trans h) (by decide)
    · refine (qualifier_marked h hn).widen (fun _ hs => .inr (.inr hs)) fun hs hc hF => ?_
      rcases hs with hs | hs | hs
      · exact absurd (.inr ⟨h, hn⟩) (hnil hs hc hF)
      · have hbare := (opens_one _).sign hs hc
        exact absurd (hbare.symm.trans h) (by decide)
      · exact hs
  · rw [qualifier_none h]
    refine (Outcome.Recognizes.nothing none c).widen (fun _ hs => .inl hs) fun hs hc _ => ?_
    exact hs.elim (fun hs => hs) fun hs => absurd (qualified_of_spells hs hc) h

end Stylesheet.Production
