import Stylesheet.Proofs.Grammar
import Stylesheet.Proofs.Passing
import Stylesheet.Sheet.Drafting

/-!
# Recognizing a language

A production recognizes a language if it is clean, that is, reports no error, exactly where a word
of the language stands. One half of this is soundness: what was read without an error is a word.
The other half is completeness: a word is read without an error, and up to its end. What follows
the word has a say in this, since productions are greedy and look ahead.

Results:
* `Cursor.Spells.split`: where a word is made of two, a cursor stands between them.
* `Outcome.Recognizes.bind`: one production after the other recognizes one language after the other.
-/
namespace Stylesheet

open scoped Computability

/-- No error is reported; warnings may be. -/
def Outcome.Clean {α : Type} (o : Outcome α) : Prop := ∀ d ∈ o.reports, d.isError = false

theorem Outcome.clean_append {α β γ : Type} {o : Outcome α} {o₂ : Outcome β} {v : γ} {c : Cursor}
    {f : List Fault} :
    Outcome.Clean ⟨v, c, o.reports ++ o₂.reports, f⟩ ↔ o.Clean ∧ o₂.Clean := by
  simp [Clean, or_imp, forall_and]

theorem Production.clean_bind {α β : Type} {p : Production α} {f : α → Production β} {c : Cursor} :
    ((p >>= f) c).Clean ↔ (p c).Clean ∧ (f (p c).value (p c).rest).Clean := by
  rw [bind_apply]
  exact Outcome.clean_append

/-- An error is not clean. -/
theorem Outcome.not_clean {α : Type} {o : Outcome α} {d : Diagnostic} (hd : d ∈ o.reports)
    (he : d.isError) : ¬o.Clean :=
  fun h => absurd he (by simp [h d hd])

/-! ## Words between cursors -/

namespace Cursor

variable {c c' c₁ c₂ : Cursor} {s : Sign} {a b ss : List Sign}

/-- The next lexeme as the grammar sees it. -/
def sign (c : Cursor) : Sign := ⟨c.kind, c.touching⟩

/-- The signs of the lexemes between two cursors. -/
def Spells (c : Cursor) (ss : List Sign) (c' : Cursor) : Prop :=
  ∃ ls, c.Passes ls c' ∧ Lexeme.signs c.behind ls = ss

end Cursor

theorem Lexeme.signs_append (behind : Option Lexeme) (a b : List Lexeme) :
    signs behind (a ++ b) = signs behind a ++ signs (a.getLast?.or behind) b := by
  induction a generalizing behind with
  | nil => rfl
  | cons l ls ih =>
    have hlast : (l :: ls).getLast?.or behind = ls.getLast?.or (some l) := by
      cases ls <;> simp [List.getLast?_cons]
    rw [hlast]
    simp only [List.cons_append, signs, ih]

theorem Lexeme.length_signs (behind : Option Lexeme) (ls : List Lexeme) :
    (signs behind ls).length = ls.length := by
  induction ls generalizing behind with
  | nil => rfl
  | cons l ls ih => simp [signs, ih]

theorem Lexeme.map_kind_signs (behind : Option Lexeme) (ls : List Lexeme) :
    (signs behind ls).map Sign.kind = ls.map Lexeme.kind := by
  induction ls generalizing behind with
  | nil => rfl
  | cons l ls ih => simp [signs, ih]

namespace Cursor.Spells

variable {c c' c₁ c₂ : Cursor} {s : Sign} {a b ss : List Sign}

theorem refl (c : Cursor) : c.Spells [] c := ⟨[], .refl c, rfl⟩

theorem trans (h₁ : c.Spells a c₁) (h₂ : c₁.Spells b c₂) : c.Spells (a ++ b) c₂ := by
  obtain ⟨la, ha, rfl⟩ := h₁
  obtain ⟨lb, hb, rfl⟩ := h₂
  exact ⟨la ++ lb, ha.trans hb, by rw [Lexeme.signs_append, ha.behind]⟩

/-- Where a word is made of two, a cursor stands between them. -/
theorem split (h : c.Spells (a ++ b) c₂) : ∃ c₁, c.Spells a c₁ ∧ c₁.Spells b c₂ := by
  obtain ⟨ls, hp, hs⟩ := h
  obtain ⟨la, lb, rfl, rfl, hb⟩ : ∃ la lb, ls = la ++ lb ∧ Lexeme.signs c.behind la = a ∧
      Lexeme.signs (la.getLast?.or c.behind) lb = b := by
    refine ⟨ls.take a.length, ls.drop a.length, (List.take_append_drop ..).symm, ?_⟩
    have hle : a.length ≤ ls.length := by
      have hlen := congrArg List.length hs
      rw [Lexeme.length_signs, List.length_append] at hlen
      omega
    rw [← List.take_append_drop a.length ls, Lexeme.signs_append] at hs
    exact List.append_inj hs (by rw [Lexeme.length_signs, List.length_take_of_le hle])
  have hmid := c.passes_take la.length
  have htake : c.ahead.take la.length = la := by
    rw [hp.ahead, List.append_assoc, List.take_left]
  rw [htake] at hmid
  refine ⟨c.advance la.length, ⟨la, hmid, rfl⟩, lb, ⟨?_, ?_, ?_, ?_⟩, ?_⟩
  · have hahead := hmid.ahead
    rw [hp.ahead, List.append_assoc] at hahead
    exact (List.append_cancel_left hahead).symm
  · rw [hp.offset, hmid.offset, Lexeme.widthOf_append, Nat.add_assoc]
  · rw [hp.behind, hmid.behind, List.getLast?_append, Option.or_assoc]
  · rw [hp.final, hmid.final]
  · rw [hmid.behind]
    exact hb

theorem nil (h : c.Spells [] c') : c' = c := by
  obtain ⟨ls, hp, hs⟩ := h
  cases ls with
  | nil => exact hp.stand
  | cons l ls => cases hs

/-- A word starts with the sign of the next lexeme. -/
theorem sign_eq (h : c.Spells (s :: ss) c') : c.sign = s := by
  obtain ⟨ls, hp, hs⟩ := h
  cases ls with
  | nil => cases hs
  | cons l ls =>
    rw [Lexeme.signs, List.cons.injEq] at hs
    rw [Cursor.sign, hp.kind_eq, Cursor.touching, hp.next_eq, ← hs.1]

theorem kind_eq (h : c.Spells (s :: ss) c') : c.kind = s.kind := congrArg Sign.kind h.sign_eq

/-- A word ends as many lexemes on as it has signs. -/
theorem end_eq (h : c.Spells ss c') : c' = c.advance ss.length := by
  obtain ⟨ls, hp, rfl⟩ := h
  have htake : c.ahead.take ls.length = ls := by rw [hp.ahead, List.take_left]
  have hadvance := c.passes_take ls.length
  rw [htake] at hadvance
  rw [Lexeme.length_signs]
  exact hp.unique hadvance

/-- Behind a word of one sign comes the next but one lexeme. -/
theorem kind_behind (h : c.Spells [s] c') : c'.kind = c.kindAt 1 := by
  rw [h.end_eq]
  simp [kind, Cursor.kindAt, Lexeme.kindAt, advance]

/-- The second sign of a word is the next but one lexeme. -/
theorem kindAt_one {t : Sign} (h : c.Spells (s :: t :: ss) c') : c.kindAt 1 = t.kind := by
  obtain ⟨c₁, hfirst, hrest⟩ := split (a := [s]) h
  rw [← hfirst.kind_behind, hrest.kind_eq]

end Cursor.Spells

/-! ## How languages start -/

namespace Grammar

variable {L M : Language Sign} {P Q : Sign → Prop} {ss : List Sign}

/-- Each word has a first sign, and that has a property. -/
def Opens (L : Language Sign) (P : Sign → Prop) : Prop :=
  ∀ ss ∈ L, ∃ s rest, ss = s :: rest ∧ P s

theorem Opens.imp (h : Opens L P) (hpq : ∀ s, P s → Q s) : Opens L Q := by
  intro ss hss
  obtain ⟨s, rest, rfl, hs⟩ := h ss hss
  exact ⟨s, rest, rfl, hpq s hs⟩

theorem Opens.ne {k k' : Kind} (h : Opens L (·.kind = k)) (hk : k ≠ k') :
    Opens L (·.kind ≠ k') :=
  h.imp fun _ hs he => hk (hs.symm.trans he)

theorem Opens.not_name {k : Kind} (h : Opens L (·.kind = k)) (hk : k.isName = false) :
    Opens L (¬·.kind.isName) :=
  h.imp fun _ hs hn => by rw [hs, hk] at hn; cases hn

theorem opens_sign : Opens (sign P) P := by
  rintro ss ⟨s, hs, rfl⟩
  exact ⟨s, [], rfl, hs⟩

theorem opens_one (kind : Kind) : Opens (one kind) (·.kind = kind) := opens_sign

theorem opens_starting : Opens (starting P L) P := fun _ h => h.2

theorem Opens.starting (h : Opens L P) : Opens (Grammar.starting Q L) fun s => P s ∧ Q s := by
  intro ss hs
  obtain ⟨s, rest, rfl, hq⟩ := hs.2
  obtain ⟨t, more, ht, hp⟩ := h _ hs.1
  obtain ⟨rfl, -⟩ := List.cons.inj ht
  exact ⟨s, rest, rfl, hp, hq⟩

theorem Opens.mul (h : Opens L P) (M : Language Sign) : Opens (L * M) P := by
  intro ss hss
  obtain ⟨a, ha, b, -, rfl⟩ := Language.mem_mul.mp hss
  obtain ⟨s, rest, rfl, hs⟩ := h a ha
  exact ⟨s, rest ++ b, rfl, hs⟩

theorem Opens.add (hl : Opens L P) (hm : Opens M P) : Opens (L + M) P := by
  intro ss hss
  exact ((Language.mem_add ..).mp hss).elim (hl ss) (hm ss)

theorem opens_braces (L : Language Sign) : Opens (braces L) (·.kind = .leftBrace) := by
  rw [braces, mul_assoc]
  exact (opens_one _).mul _

theorem opens_parentheses (L : Language Sign) : Opens (parentheses L) (·.kind = .leftParen) := by
  rw [parentheses, mul_assoc]
  exact (opens_one _).mul _

/-- What may be left out leaves the start to what follows. -/
theorem Opens.maybe_mul (hl : Opens L P) (hm : Opens M P) : Opens (maybe L * M) P := by
  rw [maybe, add_mul, one_mul]
  exact hm.add (hl.mul M)

theorem Opens.sign {c c' : Cursor} (h : Opens L P) (hs : ss ∈ L) (hc : c.Spells ss c') :
    P c.sign := by
  obtain ⟨s, rest, rfl, hp⟩ := h ss hs
  exact hc.sign_eq ▸ hp

/-- The kind of the second sign. -/
theorem kindAt_one_of_mem {kind : Kind} {c c' : Cursor}
    (hs : ss ∈ Grammar.sign P * (one kind * L)) (hc : c.Spells ss c') : c.kindAt 1 = kind := by
  obtain ⟨a, ⟨s, -, rfl⟩, b, hb, rfl⟩ := Language.mem_mul.mp hs
  obtain ⟨t, rest, rfl, ht⟩ := (opens_one kind).mul L b hb
  exact hc.kindAt_one.trans ht

/-- Where a word of the first of two languages cannot stand, it is one of the second. -/
theorem Opens.mem_add {c c' : Cursor} (h : Opens L P) (hp : ¬P c.sign) (hc : c.Spells ss c') :
    ss ∈ L + M ↔ ss ∈ M :=
  ⟨fun hs => hs.elim (fun hl => absurd (h.sign hl hc) hp) id, .inr⟩

/-- Where a word of the second of two languages cannot stand, it is one of the first. -/
theorem Opens.mem_add_left {c c' : Cursor} (h : Opens M P) (hp : ¬P c.sign)
    (hc : c.Spells ss c') : ss ∈ L + M ↔ ss ∈ L := by
  rw [add_comm]
  exact h.mem_add hp hc

/-- Where the next sign has a property, words start with one that does. -/
theorem Opens.mem_starting {c c' : Cursor} (h : Opens L P) (hq : Q c.sign) (hc : c.Spells ss c') :
    ss ∈ Grammar.starting Q L ↔ ss ∈ L := by
  refine ⟨And.left, fun hs => ⟨hs, ?_⟩⟩
  obtain ⟨s, rest, rfl, -⟩ := h ss hs
  exact ⟨s, rest, rfl, hc.sign_eq ▸ hq⟩

theorem Opens.ne_nil (h : Opens L P) (hs : ss ∈ L) : ss ≠ [] := by
  obtain ⟨s, rest, rfl, -⟩ := h ss hs
  simp

end Grammar

/-! ## Recognizing -/

/-- The outcome of a production at a cursor is clean exactly where a word of a language stands. In
front of a cursor with a property, the word is read to its end. -/
structure Outcome.Recognizes {α : Type} (o : Outcome α) (c : Cursor) (L : Language Sign)
    (F : Cursor → Prop) : Prop where
  sound : o.Clean → ∃ ss ∈ L, c.Spells ss o.rest
  complete : ∀ {ss c'}, ss ∈ L → c.Spells ss c' → F c' → o.Clean ∧ o.rest = c'

/-- In front of words of a language that stand in front of `F`, there is `G`. -/
def Cursor.Leads (M : Language Sign) (F G : Cursor → Prop) : Prop :=
  ∀ ss c c', ss ∈ M → c.Spells ss c' → F c' → G c

namespace Cursor.Leads

open Grammar

variable {L M : Language Sign} {P : Sign → Prop} {F G : Cursor → Prop}

theorem of_opens (h : Opens M P) (hp : ∀ c : Cursor, P c.sign → G c) : Leads M F G := by
  intro ss c c' hs hc _
  obtain ⟨s, rest, rfl, hps⟩ := h ss hs
  exact hp c (hc.sign_eq ▸ hps)

theorem anywhere : Leads M F fun _ => True := fun _ _ _ _ _ _ => trivial

theorem one (h : ∀ c, F c → G c) : Leads 1 F G := by
  intro ss c c' hs hc hf
  cases (Language.mem_one ..).mp hs
  exact hc.nil ▸ h c' hf

theorem add (hl : Leads L F G) (hm : Leads M F G) : Leads (L + M) F G := by
  intro ss c c' hs hc hf
  exact ((Language.mem_add ..).mp hs).elim (fun h => hl ss c c' h hc hf)
    (fun h => hm ss c c' h hc hf)

end Cursor.Leads

namespace Outcome.Recognizes

open Production Grammar

variable {α β : Type} {c : Cursor} {L M : Language Sign} {P : Sign → Prop}
  {F G : Cursor → Prop} {o : Outcome α}

/-- A production that reads nothing. -/
theorem nothing (v : α) (c : Cursor) : Outcome.Recognizes ⟨v, c, [], []⟩ c 1 F := by
  refine ⟨fun _ => ⟨[], rfl, .refl c⟩, fun hs hc _ => ?_⟩
  cases (Language.mem_one ..).mp hs
  exact ⟨by simp [Outcome.Clean], hc.nil.symm⟩

/-- Less may follow. -/
theorem before (h : o.Recognizes c L G) (hf : ∀ c, F c → G c) : o.Recognizes c L F :=
  ⟨h.sound, fun hs hc hF => h.complete hs hc (hf _ hF)⟩

/-- A production that reports an error, where no word stands. -/
theorem refuse (h : ¬o.Clean) (hl : ∀ {ss c'}, ss ∈ L → c.Spells ss c' → F c' → False) :
    o.Recognizes c L F :=
  ⟨fun hc => absurd hc h, fun hs hc hF => (hl hs hc hF).elim⟩

/-- Only words that can stand there matter. -/
theorem congr (h : o.Recognizes c L F) (hl : ∀ {ss c'}, c.Spells ss c' → (ss ∈ L ↔ ss ∈ M)) :
    o.Recognizes c M F := by
  refine ⟨fun hc => ?_, fun hs hc hF => h.complete ((hl hc).mpr hs) hc hF⟩
  obtain ⟨ss, hs, hsp⟩ := h.sound hc
  exact ⟨ss, (hl hsp).mp hs, hsp⟩

/-- Where only words of a smaller language can stand. -/
theorem widen (h : o.Recognizes c M F) (hm : ∀ ss ∈ M, ss ∈ L)
    (hl : ∀ {ss c'}, ss ∈ L → c.Spells ss c' → F c' → ss ∈ M) : o.Recognizes c L F := by
  refine ⟨fun hc => ?_, fun hs hc hF => h.complete (hl hs hc hF) hc hF⟩
  obtain ⟨ss, hs, hsp⟩ := h.sound hc
  exact ⟨ss, hm ss hs, hsp⟩

theorem starting {Q : Sign → Prop} (h : o.Recognizes c L F) (hl : Opens L Q) (hp : P c.sign) :
    o.Recognizes c (Grammar.starting P L) F := by
  refine ⟨fun hc => ?_, fun hs hc hF => h.complete hs.1 hc hF⟩
  obtain ⟨ss, hs, hsp⟩ := h.sound hc
  exact ⟨ss, (hl.mem_starting hp hsp).mpr hs, hsp⟩

/-- One production after the other. -/
theorem bind {p : Production α} {f : α → Production β} (hp : (p c).Recognizes c L G)
    (hf : (f (p c).value (p c).rest).Recognizes (p c).rest M F) (hg : Cursor.Leads M F G) :
    ((p >>= f) c).Recognizes c (L * M) F := by
  refine ⟨fun hc => ?_, fun hs hc hF => ?_⟩
  · obtain ⟨hfirst, hsecond⟩ := clean_bind.mp hc
    obtain ⟨a, ha, hsa⟩ := hp.sound hfirst
    obtain ⟨b, hb, hsb⟩ := hf.sound hsecond
    exact ⟨a ++ b, Language.mem_mul.mpr ⟨a, ha, b, hb, rfl⟩, hsa.trans hsb⟩
  · obtain ⟨a, ha, b, hb, rfl⟩ := Language.mem_mul.mp hs
    obtain ⟨c₁, h₁, h₂⟩ := hc.split
    obtain ⟨hfirst, hrest⟩ := hp.complete ha h₁ (hg b c₁ _ hb h₂ hF)
    subst hrest
    obtain ⟨hsecond, hrest⟩ := hf.complete hb h₂ hF
    exact ⟨clean_bind.mpr ⟨hfirst, hsecond⟩, hrest⟩

/-- One production after one that does not care what follows. -/
theorem andThen {p : Production α} {f : α → Production β}
    (hp : (p c).Recognizes c L fun _ => True)
    (hf : (f (p c).value (p c).rest).Recognizes (p c).rest M F) :
    ((p >>= f) c).Recognizes c (L * M) F :=
  hp.bind hf .anywhere

/-- The last production. -/
theorem last {p : Production α} {f : α → β} (hp : (p c).Recognizes c L F) :
    ((p >>= fun v => pure (f v)) c).Recognizes c L F := by
  rw [bind_apply]
  simp only [pure_apply, List.append_nil]
  exact ⟨hp.sound, hp.complete⟩

/-- What is given at once is not read. -/
theorem given {a : α} {f : α → Production β} (h : (f a c).Recognizes c L F) :
    ((pure a >>= f) c).Recognizes c L F :=
  h

/-- A look reads nothing. -/
theorem seen {view : Cursor → α} {f : α → Production β} (h : (f (view c) c).Recognizes c L F) :
    ((look view >>= f) c).Recognizes c L F :=
  h

theorem map {p : Production α} {f : α → β} (h : (p c).Recognizes c L F) :
    ((f <$> p) c).Recognizes c L F := by
  rw [map_apply]
  exact ⟨h.sound, h.complete⟩

end Outcome.Recognizes

/-! ## What can only come last -/

/-- Where a block ends, or should. -/
def Cursor.AtEnd (c : Cursor) : Prop := c.kind = .rightBrace ∨ c.kind = .eof

/-- The outcome of a production at a cursor is clean exactly where a word of one of two languages
stands. One of the second language must be the last one in its block. -/
structure Outcome.Finishes {α : Type} (o : Outcome α) (c : Cursor) (I T : Language Sign)
    (F : Cursor → Prop) : Prop where
  sound : o.Clean →
    (∃ ss ∈ I, c.Spells ss o.rest) ∨ ∃ ss ∈ T, c.Spells ss o.rest ∧ o.rest.AtEnd
  complete : ∀ {ss c'}, ss ∈ I → c.Spells ss c' → F c' → o.Clean ∧ o.rest = c'
  last : ∀ {ss c'}, ss ∈ T → c.Spells ss c' → c'.AtEnd → o.Clean ∧ o.rest = c'

namespace Outcome

open Production

variable {α β : Type} {c : Cursor} {L I I' T T' : Language Sign} {F G : Cursor → Prop}
  {o : Outcome α}

theorem Recognizes.finishes (h : o.Recognizes c L F) : o.Finishes c L 0 F :=
  ⟨fun hc => .inl (h.sound hc), h.complete, fun {ss _} hs => absurd hs (Language.notMem_zero ss)⟩

/-- Only words that can stand there matter. -/
theorem Finishes.congr (h : o.Finishes c I T F)
    (hi : ∀ {ss c'}, c.Spells ss c' → (ss ∈ I ↔ ss ∈ I'))
    (ht : ∀ {ss c'}, c.Spells ss c' → c'.AtEnd → (ss ∈ T ↔ ss ∈ T')) : o.Finishes c I' T' F := by
  refine ⟨fun hc => ?_, fun hs hc hF => h.complete ((hi hc).mpr hs) hc hF, fun hs hc hF =>
    h.last ((ht hc hF).mpr hs) hc hF⟩
  rcases h.sound hc with ⟨ss, hs, hsp⟩ | ⟨ss, hs, hsp, hend⟩
  · exact .inl ⟨ss, (hi hsp).mp hs, hsp⟩
  · exact .inr ⟨ss, (ht hsp hend).mp hs, hsp, hend⟩

/-- What comes last behind something else. -/
theorem Finishes.bind {p : Production α} {f : α → Production β} (hp : (p c).Recognizes c L G)
    (hf : (f (p c).value (p c).rest).Finishes (p c).rest I T F) (hi : Cursor.Leads I F G)
    (ht : Cursor.Leads T Cursor.AtEnd G) : ((p >>= f) c).Finishes c (L * I) (L * T) F := by
  have hgo {W : Language Sign} {E : Cursor → Prop} (hw : Cursor.Leads W E G)
      (h : ∀ {ss c'}, ss ∈ W → (p c).rest.Spells ss c' → E c' →
        (f (p c).value (p c).rest).Clean ∧ (f (p c).value (p c).rest).rest = c')
      {ss : List Sign} {c' : Cursor} (hs : ss ∈ L * W) (hc : c.Spells ss c') (hE : E c') :
      ((p >>= f) c).Clean ∧ ((p >>= f) c).rest = c' := by
    obtain ⟨a, ha, b, hb, rfl⟩ := Language.mem_mul.mp hs
    obtain ⟨c₁, h₁, h₂⟩ := hc.split
    obtain ⟨hfirst, hrest⟩ := hp.complete ha h₁ (hw b c₁ _ hb h₂ hE)
    subst hrest
    obtain ⟨hsecond, hrest⟩ := h hb h₂ hE
    exact ⟨clean_bind.mpr ⟨hfirst, hsecond⟩, hrest⟩
  refine ⟨fun hc => ?_, hgo hi hf.complete, hgo ht hf.last⟩
  obtain ⟨hfirst, hsecond⟩ := clean_bind.mp hc
  obtain ⟨a, ha, hsa⟩ := hp.sound hfirst
  rcases hf.sound hsecond with ⟨b, hb, hsb⟩ | ⟨b, hb, hsb, hend⟩
  · exact .inl ⟨a ++ b, Language.mem_mul.mpr ⟨a, ha, b, hb, rfl⟩, hsa.trans hsb⟩
  · exact .inr ⟨a ++ b, Language.mem_mul.mpr ⟨a, ha, b, hb, rfl⟩, hsa.trans hsb, hend⟩

end Outcome

end Stylesheet
