import Stylesheet.Proofs.Places

/-!
# Where texts and full spans lie

The full spans of the tokens below a place are laid end to end over the full span of the place. The
text of a node is read off two of them: it starts with the text of the first present token and stops
with the text of the last one.

Results:
* `Text.sliceable_iff`: a span can be cut out of a text when it splits no character.
* `Text.slice?_join`: two spans next to one another are cut out as one.
* `Place.contiguous`: the tokens below a place, end to end.
* `Place.textSpan_cases`: the text span of a node.
* `Span.Before`, `Place.presentPlaces`: spans one behind the other, and the present tokens in a row.
* `SyntaxTree.Has.induct`: what holds of the root and goes from a node to what is in its slots holds
  of all places.
-/
namespace Stylesheet

/-! ## Cutting a text -/

namespace Text

variable {text : Text} {n : Nat} {s : Span}

theorem isBoundary_iff : isBoundary text n ↔ ∃ a b, text = a ++ b ∧ width a = n := by
  constructor
  · intro h
    induction text generalizing n with
    | nil =>
      cases n with
      | zero => exact ⟨[], [], rfl, rfl⟩
      | succ n => cases h
    | cons c cs ih =>
      cases n with
      | zero => exact ⟨[], c :: cs, rfl, rfl⟩
      | succ n =>
        by_cases hle : c.utf8Size ≤ n + 1
        · have hrest : isBoundary cs (n + 1 - c.utf8Size) := by
            simpa [isBoundary, drop?, hle] using h
          obtain ⟨a, b, rfl, hwidth⟩ := ih hrest
          exact ⟨c :: a, b, rfl, by rw [width_cons, hwidth]; omega⟩
        · simp [isBoundary, drop?, hle] at h
  · rintro ⟨a, b, rfl, rfl⟩
    exact isBoundary_width_append a b

theorem le_width_of_isBoundary (h : isBoundary text n) : n ≤ width text := by
  obtain ⟨a, b, rfl, rfl⟩ := isBoundary_iff.mp h
  rw [width_append]
  omega

theorem isBoundary_of_take? {a : Text} (h : take? n text = some a) : isBoundary text n := by
  induction text generalizing n a with
  | nil =>
    cases n with
    | zero => rfl
    | succ n => cases h
  | cons c cs ih =>
    cases n with
    | zero => rfl
    | succ n =>
      by_cases hle : c.utf8Size ≤ n + 1
      · rw [take?, if_pos hle] at h
        obtain ⟨rest, hrest, -⟩ := Option.map_eq_some_iff.mp h
        simpa [isBoundary, drop?, hle] using ih hrest
      · simp [take?, hle] at h

theorem eq_nil_of_width (h : width text = 0) : text = [] := by
  by_contra hne
  exact Nat.ne_of_gt (width_pos hne) h

/-- Of two cuts of one text, the later one goes through what the earlier one leaves. -/
theorem append_of_le {a b a' b' : Text} (h : a ++ b = a' ++ b') (hle : width a ≤ width a') :
    ∃ m, a' = a ++ m ∧ b = m ++ b' := by
  rcases List.append_eq_append_iff.mp h with ⟨m, rfl, rfl⟩ | ⟨m, rfl, rfl⟩
  · exact ⟨m, rfl, rfl⟩
  · cases m with
    | nil => exact ⟨[], by simp, by simp⟩
    | cons c cs =>
      rw [width_append, width_cons] at hle
      have := c.utf8Size_pos
      omega

/-- Whether a span lies in a text and splits no character of it. -/
def Sliceable (text : Text) (s : Span) : Prop := isBoundary text s.start ∧ isBoundary text s.stop

theorem Sliceable.stop_le (h : text.Sliceable s) : s.stop ≤ width text := le_width_of_isBoundary h.2

/-- A span that can be cut out leaves a text in front of it and one behind it. -/
theorem Sliceable.split (h : text.Sliceable s) :
    ∃ a m b, text = a ++ m ++ b ∧ s = Span.ofWidth (width a) (width m) := by
  obtain ⟨hstart, hstop⟩ := h
  obtain ⟨a, c, htext, ha⟩ := isBoundary_iff.mp hstart
  obtain ⟨a', b, htext', ha'⟩ := isBoundary_iff.mp hstop
  have hle : width a ≤ width a' := by rw [ha, ha']; exact s.start_le_stop
  obtain ⟨m, rfl, -⟩ := append_of_le (htext.symm.trans htext') hle
  refine ⟨a, m, b, htext', ?_⟩
  obtain ⟨start, stop, _⟩ := s
  rw [width_append] at ha'
  simp only at ha ha'
  simp [Span.ofWidth, ha, ← ha']

theorem sliceable_iff : text.Sliceable s ↔ (text.slice? s).isSome := by
  constructor
  · intro h
    obtain ⟨a, m, b, rfl, rfl⟩ := h.split
    rw [slice?_append]
    rfl
  · intro h
    obtain ⟨cut, hslice⟩ := Option.isSome_iff_exists.mp h
    obtain ⟨b, hb, hcut⟩ := Option.bind_eq_some_iff.mp hslice
    have hstart : isBoundary text s.start := by
      rw [isBoundary, hb]
      rfl
    refine ⟨hstart, ?_⟩
    obtain ⟨a, b', rfl, ha⟩ := isBoundary_iff.mp hstart
    rw [← ha, drop?_width_append, Option.some.injEq] at hb
    subst hb
    obtain ⟨m, c, rfl, hwidth⟩ := isBoundary_iff.mp (isBoundary_of_take? hcut)
    refine isBoundary_iff.mpr ⟨a ++ m, c, by rw [List.append_assoc], ?_⟩
    have := s.start_le_stop
    rw [width_append, ha, hwidth, Span.width]
    omega

theorem exists_split_of_slice? {m : Text} (h : text.slice? s = some m) :
    ∃ a b, text = a ++ m ++ b ∧ s = Span.ofWidth (width a) (width m) := by
  obtain ⟨a, m', b, rfl, rfl⟩ := (sliceable_iff.mpr (Option.isSome_of_mem h)).split
  rw [slice?_append] at h
  cases h
  exact ⟨a, b, rfl, rfl⟩

theorem width_of_slice? {m : Text} (h : text.slice? s = some m) : width m = s.width := by
  obtain ⟨a, b, -, rfl⟩ := exists_split_of_slice? h
  exact (Span.width_ofWidth _ _).symm

/-- The texts of two spans, one of which starts where the other one stops. -/
theorem slice?_join {t u : Span} {m n : Text} (hm : text.slice? s = some m)
    (hn : text.slice? t = some n) (hst : s.stop = t.start) (hstart : u.start = s.start)
    (hstop : u.stop = t.stop) : text.slice? u = some (m ++ n) := by
  obtain ⟨a, b, htext, rfl⟩ := exists_split_of_slice? hm
  obtain ⟨a', b', htext', rfl⟩ := exists_split_of_slice? hn
  simp only [Span.start_ofWidth, Span.stop_ofWidth] at hst hstart hstop
  rw [htext, List.append_assoc a'] at htext'
  obtain ⟨k, hk, -⟩ := append_of_le htext' (by rw [width_append]; exact Nat.le_of_eq hst)
  have hnone : k = [] := by
    apply eq_nil_of_width
    rw [hk, width_append, width_append] at hst
    omega
  have hu : u = Span.ofWidth (width a) (width (m ++ n)) := by
    obtain ⟨start, stop, _⟩ := u
    simp only at hstart hstop
    simp only [Span.ofWidth, hstart, hstop, ← hst, width_append, Nat.add_assoc]
  rw [hnone, List.append_nil] at hk
  have hall : text = a ++ (m ++ n) ++ b' := by
    rw [htext, htext', hk]
    simp only [List.append_assoc]
  rw [hall, hu, slice?_append]

end Text

/-! ## The tokens below a place -/

mutual

theorem Tree.first?_eq_find? (test : Token → Bool) (path : List Nat) (position : Nat)
    (e : Tree Kind Token) :
    e.first? test path position
      = (e.tokenPlaces path position).find? fun p => p.token?.any test := by
  match e with
  | .token t => cases h : test t <;> simp [Tree.first?, Tree.tokenPlaces, Place.token?, h]
  | .node _ slots => exact Slots.first?_eq_find? test path 0 position slots

theorem Slots.first?_eq_find? (test : Token → Bool) (path : List Nat) (index position : Nat)
    (s : Slots Kind Token) :
    s.first? test path index position
      = (s.tokenPlaces path index position).find? fun p => p.token?.any test := by
  match s with
  | .nil => rfl
  | .empty rest => exact Slots.first?_eq_find? test path (index + 1) position rest
  | .filled e rest =>
    rw [Slots.first?, Slots.tokenPlaces, List.find?_append, Tree.first?_eq_find?,
      Slots.first?_eq_find?]
    cases (e.tokenPlaces (path ++ [index]) position).find? fun p => p.token?.any test <;> rfl

end

mutual

theorem Tree.last?_eq_find? (test : Token → Bool) (path : List Nat) (position : Nat)
    (e : Tree Kind Token) :
    e.last? test path position
      = (e.tokenPlaces path position).reverse.find? fun p => p.token?.any test := by
  match e with
  | .token t => cases h : test t <;> simp [Tree.last?, Tree.tokenPlaces, Place.token?, h]
  | .node _ slots => exact Slots.last?_eq_find? test path 0 position slots

theorem Slots.last?_eq_find? (test : Token → Bool) (path : List Nat) (index position : Nat)
    (s : Slots Kind Token) :
    s.last? test path index position
      = (s.tokenPlaces path index position).reverse.find? fun p => p.token?.any test := by
  match s with
  | .nil => rfl
  | .empty rest => exact Slots.last?_eq_find? test path (index + 1) position rest
  | .filled e rest =>
    rw [Slots.last?, Slots.tokenPlaces, List.reverse_append, List.find?_append,
      Tree.last?_eq_find?, Slots.last?_eq_find?]
    cases (rest.tokenPlaces path (index + 1) (position + e.fullWidth)).reverse.find?
      fun p => p.token?.any test <;> rfl

end

namespace Place

variable {p q first last : Place} {ps as bs : List Place} {start middle stop : Nat}

/-- The places of the tokens at and below a place. -/
def tokenPlaces (p : Place) : List Place := p.element.tokenPlaces p.path p.position

theorem contiguous (p : Place) : Contiguous p.position p.fullSpan.stop p.tokenPlaces :=
  p.element.contiguous p.path p.position

theorem isToken_of_mem (h : q ∈ p.tokenPlaces) : ∃ t, q.element = .token t := by
  have hlocated : q.located ∈ p.tokenPlaces.map Place.located := List.mem_map_of_mem h
  rw [tokenPlaces, Tree.map_located_tokenPlaces, List.mem_map] at hlocated
  obtain ⟨t, -, ht⟩ := hlocated
  exact ⟨t.2, (congrArg Prod.snd ht).symm⟩

theorem Contiguous.split (h : Contiguous start stop (as ++ bs)) :
    ∃ middle, Contiguous start middle as ∧ Contiguous middle stop bs := by
  induction as generalizing start with
  | nil => exact ⟨start, rfl, h⟩
  | cons p as ih =>
    obtain ⟨middle, has, hbs⟩ := ih h.2
    exact ⟨middle, ⟨h.1, has⟩, hbs⟩

theorem Contiguous.le (h : Contiguous start stop ps) : start ≤ stop := by
  induction ps generalizing start with
  | nil => exact Nat.le_of_eq h
  | cons p ps ih => exact Nat.le_trans (Nat.le_add_right ..) (ih h.2)

theorem Contiguous.mem (h : Contiguous start stop ps) (hp : p ∈ ps) :
    start ≤ p.position ∧ p.fullSpan.stop ≤ stop := by
  obtain ⟨as, bs, rfl⟩ := List.append_of_mem hp
  obtain ⟨middle, has, hposition, hbs⟩ := h.split
  have := has.le
  have := hbs.le
  simp only [fullSpan, Span.stop_ofWidth, hposition]
  omega

/-- Tokens without width do not move the border. -/
theorem Contiguous.eq (h : Contiguous start stop ps) (hps : ∀ p ∈ ps, p.fullWidth = 0) :
    start = stop := by
  induction ps generalizing start with
  | nil => exact h
  | cons p ps ih =>
    have hrest := ih h.2 fun q hq => hps q (List.mem_cons_of_mem _ hq)
    rwa [hps p List.mem_cons_self] at hrest

theorem fullWidth_token {t : Token} (hp : p.element = .token t) : p.fullWidth = t.fullWidth := by
  rw [fullWidth, hp]
  rfl

/-- What is missing takes no room. -/
theorem fullWidth_of_not_present {t : Token} (hp : p.element = .token t)
    (h : (!p.token?.any Token.isPresent) = true) : p.fullWidth = 0 := by
  rw [token?, hp] at h
  rw [fullWidth_token hp]
  cases t with
  | missing kind => rfl
  | present => cases h

theorem mem_of_firstPresent? (h : p.firstPresent? = some first) : first ∈ p.tokenPlaces := by
  rw [firstPresent?, first?, Tree.first?_eq_find?] at h
  exact List.mem_of_find?_eq_some h

theorem mem_of_lastPresent? (h : p.lastPresent? = some last) : last ∈ p.tokenPlaces := by
  rw [lastPresent?, last?, Tree.last?_eq_find?] at h
  exact List.mem_reverse.mp (List.mem_of_find?_eq_some h)

theorem firstPresent?_eq_none :
    p.firstPresent? = none ↔ ∀ q ∈ p.tokenPlaces, (!q.token?.any Token.isPresent) = true := by
  rw [firstPresent?, first?, Tree.first?_eq_find?, List.find?_eq_none]
  simp [tokenPlaces]

theorem lastPresent?_eq_none :
    p.lastPresent? = none ↔ ∀ q ∈ p.tokenPlaces, (!q.token?.any Token.isPresent) = true := by
  rw [lastPresent?, last?, Tree.last?_eq_find?, List.find?_eq_none]
  simp [tokenPlaces]

/-- The first present token starts where the place does. -/
theorem position_of_firstPresent? (h : p.firstPresent? = some first) :
    first.position = p.position := by
  rw [firstPresent?, first?, Tree.first?_eq_find?, List.find?_eq_some_iff_append] at h
  obtain ⟨-, as, bs, hsplit, has⟩ := h
  have hwhole := p.contiguous
  rw [tokenPlaces, hsplit] at hwhole
  obtain ⟨middle, hmissing, hposition, -⟩ := hwhole.split
  have hzero : ∀ q ∈ as, q.fullWidth = 0 := by
    intro q hq
    obtain ⟨t, ht⟩ := p.isToken_of_mem (q := q) (by
      rw [tokenPlaces, hsplit]
      exact List.mem_append_left _ hq)
    exact fullWidth_of_not_present ht (has q hq)
  rw [hposition, hmissing.eq hzero]

/-- The last present token stops where the place does. -/
theorem stop_of_lastPresent? (h : p.lastPresent? = some last) :
    last.fullSpan.stop = p.fullSpan.stop := by
  rw [lastPresent?, last?, Tree.last?_eq_find?, List.find?_eq_some_iff_append] at h
  obtain ⟨-, bs, as, hsplit, hbs⟩ := h
  have hforward : p.tokenPlaces = as.reverse ++ (last :: bs.reverse) := by
    have hreverse := congrArg List.reverse hsplit
    rwa [List.reverse_reverse, List.reverse_append, List.reverse_cons, List.append_assoc] at hreverse
  have hwhole := p.contiguous
  rw [hforward] at hwhole
  obtain ⟨middle, -, hposition, hmissing⟩ := hwhole.split
  have hzero : ∀ q ∈ bs.reverse, q.fullWidth = 0 := by
    intro q hq
    obtain ⟨t, ht⟩ := p.isToken_of_mem (q := q) (by
      rw [hforward]
      exact List.mem_append_right _ (List.mem_cons_of_mem _ hq))
    exact fullWidth_of_not_present ht (hbs q (List.mem_reverse.mp hq))
  rw [← hmissing.eq hzero, fullSpan, Span.stop_ofWidth, hposition]

/-- The text span of a node is empty where no token is present; else it goes from the text of the
first present token to that of the last one. -/
theorem textSpan_cases (p : Place) (hp : p.isNode) :
    (p.textSpan = Span.emptyAt p.position ∧ p.fullWidth = 0 ∧ p.firstPresent? = none) ∨
      ∃ first last, p.firstPresent? = some first ∧ p.lastPresent? = some last ∧
        p.textSpan.start = first.textSpan.start ∧
        p.textSpan.stop = max first.textSpan.start last.textSpan.stop := by
  obtain ⟨path, position, e⟩ := p
  cases e with
  | token t => cases hp
  | node kind slots =>
    generalize hplace : Place.mk path position (.node kind slots) = p
    have helement : p.element = .node kind slots := by rw [← hplace]
    cases hfirst : p.firstPresent? with
    | none =>
      have hmissing := firstPresent?_eq_none.mp hfirst
      have hlast : p.lastPresent? = none := lastPresent?_eq_none.mpr hmissing
      have hzero : ∀ q ∈ p.tokenPlaces, q.fullWidth = 0 := fun q hq =>
        fullWidth_of_not_present (isToken_of_mem hq).choose_spec (hmissing q hq)
      have hwidth : p.fullWidth = 0 := by
        have hstop := p.contiguous.eq hzero
        simp only [fullSpan, Span.stop_ofWidth] at hstop
        omega
      refine .inl ⟨?_, hwidth, rfl⟩
      simp [textSpan, helement, leadingWidth, trailingWidth, hfirst, hlast, hwidth, Span.emptyAt,
        Span.ofWidth]
    | some first =>
      obtain ⟨last, hlast⟩ : ∃ last, p.lastPresent? = some last := by
        cases hlast : p.lastPresent? with
        | some last => exact ⟨last, rfl⟩
        | none =>
          rw [firstPresent?_eq_none.mpr (lastPresent?_eq_none.mp hlast)] at hfirst
          cases hfirst
      obtain ⟨t, ht⟩ := isToken_of_mem (mem_of_firstPresent? hfirst)
      obtain ⟨u, hu⟩ := isToken_of_mem (mem_of_lastPresent? hlast)
      have hposition := position_of_firstPresent? hfirst
      have hstop := stop_of_lastPresent? hlast
      refine .inr ⟨first, last, rfl, hlast, ?_, ?_⟩
      · simp [textSpan, helement, leadingWidth, hfirst, token?, ht, hposition]
      · have hleading : p.leadingWidth = t.leadingWidth := by
          simp [leadingWidth, helement, hfirst, token?, ht]
        have htrailing : p.trailingWidth = u.trailingWidth := by
          simp [trailingWidth, helement, hlast, token?, hu]
        have hborder : p.position + p.fullWidth - u.trailingWidth
            = last.position + u.leadingWidth + u.width := by
          simp only [fullSpan, Span.stop_ofWidth, fullWidth_token hu, Token.fullWidth] at hstop
          omega
        rw [textSpan_of_token ht, textSpan_of_token hu]
        simp only [textSpan, helement, hleading, htrailing, hborder, hposition,
          Span.start_ofWidth, Span.stop_ofWidth]

end Place

/-! ## Spans inside one another -/

/-- Whether a span lies in another one. -/
def Span.Within (s outer : Span) : Prop := outer.start ≤ s.start ∧ s.stop ≤ outer.stop

instance (s outer : Span) : Decidable (s.Within outer) := inferInstanceAs (Decidable (_ ∧ _))

theorem Span.Within.trans {a b c : Span} (hab : a.Within b) (hbc : b.Within c) : a.Within c :=
  ⟨Nat.le_trans hbc.1 hab.1, Nat.le_trans hab.2 hbc.2⟩

namespace TriviaPlace

variable {owner : Place} {position : Nat} {pieces : List Trivia} {t : TriviaPlace}

theorem mem_sequence (h : t ∈ sequence owner position pieces) :
    t.span.Within (Span.ofWidth position (Trivia.totalWidth pieces)) := by
  induction pieces generalizing position with
  | nil => cases h
  | cons piece rest ih =>
    rcases List.mem_cons.mp h with rfl | h
    · simp only [Span.Within, span, Span.start_ofWidth, Span.stop_ofWidth, Trivia.totalWidth]
      omega
    · have hrest := ih h
      simp only [Span.Within, Span.start_ofWidth, Span.stop_ofWidth, Trivia.totalWidth] at hrest ⊢
      omega

end TriviaPlace

namespace Place

variable {p q : Place} {s : TriviaPlace}

/-- The trivia at both ends of a place. -/
def trivia (p : Place) : List TriviaPlace :=
  p.leadingTrivia?.getD [] ++ p.trailingTrivia?.getD []

theorem trivia_of_token {t : Token} (hp : p.element = .token t) :
    p.trivia = TriviaPlace.sequence p p.position t.leading
      ++ TriviaPlace.sequence p p.textSpan.stop t.trailing := by
  simp [trivia, leadingTrivia?, trailingTrivia?, hp]

theorem fullSpan_within_of_mem (h : q ∈ p.tokenPlaces) : q.fullSpan.Within p.fullSpan :=
  p.contiguous.mem h

theorem textSpan_within_of_token {t : Token} (hp : p.element = .token t) :
    p.textSpan.Within p.fullSpan := by
  rw [textSpan_of_token hp, fullSpan, fullWidth_token hp]
  simp only [Span.Within, Span.start_ofWidth, Span.stop_ofWidth, Token.fullWidth]
  omega

theorem textSpan_within (p : Place) : p.textSpan.Within p.fullSpan := by
  cases hp : p.element with
  | token t => exact textSpan_within_of_token hp
  | node kind slots =>
    rcases p.textSpan_cases (by rw [isNode, hp]; rfl) with ⟨htext, hwidth, -⟩ | hends
    · rw [htext, fullSpan, hwidth]
      exact ⟨Nat.le_refl _, Nat.le_refl _⟩
    · obtain ⟨first, last, hfirst, hlast, hstart, hstop⟩ := hends
      have hmem := mem_of_firstPresent? hfirst
      have hmem' := mem_of_lastPresent? hlast
      have hin := (textSpan_within_of_token (isToken_of_mem hmem).choose_spec).trans
        (fullSpan_within_of_mem hmem)
      have hin' := (textSpan_within_of_token (isToken_of_mem hmem').choose_spec).trans
        (fullSpan_within_of_mem hmem')
      refine ⟨by rw [hstart]; exact hin.1, ?_⟩
      rw [hstop]
      exact Nat.max_le.mpr ⟨Nat.le_trans first.textSpan.start_le_stop hin.2, hin'.2⟩

/-- The trivia of a token lies beside its text. -/
theorem trivia_of_mem_token {t : Token} (hp : p.element = .token t) (hs : s ∈ p.trivia) :
    s.span.Within p.fullSpan ∧
      (s.span.stop ≤ p.textSpan.start ∨ p.textSpan.stop ≤ s.span.start) := by
  have htext := textSpan_of_token hp
  have hfull := fullWidth_token hp
  have hwithin := textSpan_within_of_token hp
  rw [Token.fullWidth] at hfull
  rw [trivia_of_token hp, List.mem_append] at hs
  rcases hs with hs | hs
  · have hin := TriviaPlace.mem_sequence hs
    have hlead : t.leadingWidth = Trivia.totalWidth t.leading := rfl
    simp only [Span.Within, htext, fullSpan, Span.start_ofWidth, Span.stop_ofWidth] at hin ⊢
    omega
  · have hin := TriviaPlace.mem_sequence hs
    have htrail : t.trailingWidth = Trivia.totalWidth t.trailing := rfl
    simp only [Span.Within, htext, fullSpan, Span.start_ofWidth, Span.stop_ofWidth] at hin ⊢
    omega

end Place

/-! ## Spans beside one another -/

namespace Span

/-- Whether a span stops where another one starts, or before. -/
def Before (a b : Span) : Prop := a.stop ≤ b.start

def Apart (a b : Span) : Prop := a.Before b ∨ b.Before a

variable {a b c d : Span}

theorem Before.apart (h : a.Before b) : a.Apart b := .inl h

theorem Apart.symm (h : a.Apart b) : b.Apart a := Or.symm h

theorem Before.mono (h : c.Before d) (ha : a.Within c) (hb : b.Within d) : a.Before b :=
  Nat.le_trans ha.2 (Nat.le_trans h hb.1)

theorem Apart.mono (h : c.Apart d) (ha : a.Within c) (hb : b.Within d) : a.Apart b :=
  h.imp (·.mono ha hb) (·.mono hb ha)

/-- What is not empty is not apart from a span that it lies in. -/
theorem Within.not_apart (h : a.Within b) (ha : a.start < a.stop) : ¬a.Apart b := by
  obtain ⟨hstart, hstop⟩ := h
  simp only [Apart, Before]
  omega

end Span

/-! ## Rows of tokens -/

section Rows

variable {start stop : Nat} {p q : Place} {ps : List Place}

theorem Place.Contiguous.pairwise (h : Place.Contiguous start stop ps) :
    ps.Pairwise fun p q => p.fullSpan.Before q.fullSpan := by
  induction ps generalizing start with
  | nil => exact .nil
  | cons p ps ih =>
    refine .cons (fun q hq => ?_) (ih h.2)
    have hle := (Place.Contiguous.mem h.2 hq).1
    rwa [← h.1] at hle

namespace Place

/-- The places of the present tokens at and below a place. -/
def presentPlaces (p : Place) : List Place :=
  p.tokenPlaces.filter fun q => q.token?.any Token.isPresent

theorem head?_presentPlaces (p : Place) : p.presentPlaces.head? = p.firstPresent? := by
  rw [presentPlaces, List.head?_filter, firstPresent?, first?, Tree.first?_eq_find?, tokenPlaces]

theorem getLast?_presentPlaces (p : Place) : p.presentPlaces.getLast? = p.lastPresent? := by
  rw [presentPlaces, List.getLast?_filter, lastPresent?, last?, Tree.last?_eq_find?, tokenPlaces]

theorem pairwise_presentPlaces (p : Place) :
    p.presentPlaces.Pairwise fun q r => q.fullSpan.Before r.fullSpan :=
  p.contiguous.pairwise.filter _

/-- The text of the first present token is not behind that of any other one. -/
theorem textSpan_mono {first : Place} (h : p.firstPresent? = some first)
    (hq : q ∈ p.presentPlaces) :
    first.textSpan.start ≤ q.textSpan.start ∧ first.textSpan.stop ≤ q.textSpan.stop := by
  have hordered := p.pairwise_presentPlaces
  rw [← head?_presentPlaces] at h
  obtain ⟨rest, hrest⟩ := List.head?_eq_some_iff.mp h
  rw [hrest] at hordered hq
  rcases List.mem_cons.mp hq with rfl | hq
  · exact ⟨Nat.le_refl _, Nat.le_refl _⟩
  · have hbefore : first.textSpan.Before q.textSpan :=
      (List.rel_of_pairwise_cons hordered hq).mono first.textSpan_within q.textSpan_within
    have := first.textSpan.start_le_stop
    have := q.textSpan.start_le_stop
    unfold Span.Before at hbefore
    omega

theorem start_le_of_firstPresent? {first : Place} (h : p.firstPresent? = some first)
    (hq : q ∈ p.presentPlaces) : first.textSpan.start ≤ q.textSpan.stop :=
  Nat.le_trans (textSpan_mono h hq).1 q.textSpan.start_le_stop

end Place

end Rows

/-! ## What stands in slots -/

/-- What stands in a slot lies in the full span of its node. -/
theorem Slots.fullSpan_within {p : Place} {path : List Nat} {index position : Nat}
    {s : Slots Kind Token} (h : some p ∈ s.places path index position) :
    p.fullSpan.Within (Span.ofWidth position s.fullWidth) := by
  cases s with
  | nil => cases h
  | empty rest =>
    rw [places, List.mem_cons] at h
    exact rest.fullSpan_within (h.resolve_left (Option.some_ne_none p))
  | filled e rest =>
    rw [places, List.mem_cons] at h
    simp only [Span.Within, fullWidth, Span.start_ofWidth, Span.stop_ofWidth]
    rcases h with h | h
    · cases h
      simp only [Place.fullSpan, Place.fullWidth, Span.start_ofWidth, Span.stop_ofWidth]
      omega
    · have hrest := rest.fullSpan_within h
      simp only [Span.Within, Span.start_ofWidth, Span.stop_ofWidth] at hrest
      omega

theorem Place.fullSpan_within_of_slot {p q : Place} (h : some p ∈ q.slots) :
    p.fullSpan.Within q.fullSpan := by
  have hwithin := Slots.fullSpan_within h
  cases hq : q.element with
  | token t => rw [slots, hq] at h; cases h
  | node kind slots =>
    have hwidth : q.fullWidth = slots.fullWidth := by
      rw [fullWidth, hq]
      rfl
    rw [hq] at hwithin
    rw [show q.fullSpan = Span.ofWidth q.position q.fullWidth from rfl, hwidth]
    exact hwithin

/-! ## All places of a tree -/

namespace SyntaxTree

variable {tree : SyntaxTree} {p : Place}

/-- What holds of the root and goes from a place to what is in its slots holds of all places. -/
theorem Has.induct {P : Place → Prop} (root : P tree.root)
    (slot : ∀ q p, tree.Has q → P q → some p ∈ q.slots → P p) (hp : tree.Has p) : P p := by
  induction hpath : p.path using List.reverseRecOn generalizing p with
  | nil =>
    unfold Has at hp
    rw [hpath] at hp
    cases hp
    exact root
  | append_singleton path i ih =>
    unfold Has at hp
    rw [hpath, at?_concat, Option.bind_eq_some_iff] at hp
    obtain ⟨q, hq, hchild⟩ := hp
    have hslot := List.mem_of_getElem? (getElem?_of_child? hchild)
    exact slot q p (has_of_at? hq) (ih (has_of_at? hq) (path_of_at? hq)) hslot

theorem stop_fullSpan_root (tree : SyntaxTree) :
    tree.root.fullSpan.stop = tree.slots.fullWidth := Nat.zero_add _

theorem Has.fullSpan_within_root (hp : tree.Has p) : p.fullSpan.Within tree.root.fullSpan := by
  refine Has.induct (P := fun p => p.fullSpan.Within tree.root.fullSpan) ?_ ?_ hp
  · exact ⟨Nat.le_refl _, Nat.le_refl _⟩
  · intro q p _ hq hslot
    exact (Place.fullSpan_within_of_slot hslot).trans hq

end SyntaxTree

end Stylesheet
