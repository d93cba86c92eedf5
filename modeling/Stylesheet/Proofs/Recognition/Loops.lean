import Stylesheet.Proofs.Reading.Loops
import Stylesheet.Proofs.Recognition.Pieces

/-!
# Recognizing repetitions

A loop reads one word after the other. That it reads the words it should, and not others, depends
on each word being read to its end in front of the next one.

Results:
* `Loop.recognizes`: a loop recognizes the repetition of what its steps recognize.
* `block_recognizes`: items in braces.
* `separated_recognizes`: items with commas between them.
-/
namespace Stylesheet

open scoped Computability

namespace Grammar

variable {L M : Language Sign} {P : Sign → Prop} {F G : Cursor → Prop}

theorem nil_mem_star (L : Language Sign) : [] ∈ L∗ := Language.nil_mem_kstar L

theorem cons_mem_star {a b : List Sign} (ha : a ∈ L) (hb : b ∈ L∗) : a ++ b ∈ L∗ :=
  mul_kstar_le_kstar (a := L) (Language.mem_mul.mpr ⟨a, ha, b, hb, rfl⟩)

/-- A repetition starts like what is repeated, or leaves the start to what follows. -/
theorem leads_star_mul (hl : Opens L P) (hp : ∀ c : Cursor, P c.sign → G c)
    (hm : Cursor.Leads M F G) : Cursor.Leads (L∗ * M) F G := by
  intro ss c c' hs hc hF
  obtain ⟨a, ha, b, hb, rfl⟩ := Language.mem_mul.mp hs
  obtain ⟨words, rfl, hwords⟩ := Language.mem_kstar.mp ha
  cases words with
  | nil => exact hm b c c' hb hc hF
  | cons w words =>
    rw [List.flatten_cons, List.append_assoc] at hc
    obtain ⟨c₁, h₁, -⟩ := hc.split
    exact hp c (hl.sign (hwords w (List.mem_cons_self ..)) h₁)

theorem leads_star (hl : Opens L P) (hp : ∀ c : Cursor, P c.sign → G c) (hF : ∀ c, F c → G c) :
    Cursor.Leads L∗ F G := by
  rw [← mul_one L∗]
  exact leads_star_mul hl hp (.one hF)

theorem leads_maybe (hl : Opens L P) (hp : ∀ c : Cursor, P c.sign → G c)
    (hF : ∀ c, F c → G c) : Cursor.Leads (maybe L) F G :=
  .add (.one hF) (.of_opens hl hp)

end Grammar

namespace Production

open Grammar

/-! ## The loop -/

section Loop

variable {step : Production (Option Draft)} {role : SlotRole} {I T : Language Sign}
  {before stop : Cursor → Prop} {c c' c₁ : Cursor} {ss : List Sign}

/-- A step goes on from one cursor to another, without an error. -/
structure Goes (step : Production (Option Draft)) (c c' : Cursor) : Prop where
  answers : (step c).value ≠ none
  clean : (step c).Clean
  rest : (step c).rest = c'

theorem Goes.of_item {item : Production Draft} (hx : step c = (some <$> item) c)
    (h : (item c).Clean ∧ (item c).rest = c') : Goes step c c' := by
  rw [map_apply] at hx
  exact ⟨by simp [hx], by rw [hx]; exact h.1, by rw [hx]; exact h.2⟩

/-- What the steps of a loop do: they read items, and perhaps another word behind which the loop
ends. -/
structure Loop (step : Production (Option Draft)) (I T : Language Sign)
    (before stop : Cursor → Prop) : Prop where
  sound : ∀ c, (step c).value ≠ none → (step c).Clean →
    (∃ ss ∈ I, c.Spells ss (step c).rest) ∨
      ∃ ss ∈ T, c.Spells ss (step c).rest ∧ (step (step c).rest).value = none
  item : ∀ ss c c', ss ∈ I → c.Spells ss c' → before c' → Goes step c c'
  last : ∀ ss c c', ss ∈ T → c.Spells ss c' → stop c' → Goes step c c'
  stops : ∀ c, stop c → (step c).value = none
  leads : Cursor.Leads (I∗ * maybe T) stop before

theorem Steps.many_of_none (hs : Steps step role) (h : (step c).value = none) :
    many step c = ⟨[], c, [], []⟩ := by
  rw [Production.many_of_none h, hs.ends h]

theorem Goes.many (hs : Steps step role) (hg : Goes step c c₁)
    (h : (many step c₁).Clean ∧ (many step c₁).rest = c') :
    (many step c).Clean ∧ (many step c).rest = c' := by
  obtain ⟨d, hd⟩ := Option.ne_none_iff_exists'.mp hg.answers
  rw [many_of_some hd (hs.goesOn hd).2.2, hg.rest]
  exact ⟨Outcome.clean_append.mpr ⟨hg.clean, h.1⟩, h.2⟩

theorem Loop.many_sound (hs : Steps step role) (hl : Loop step I T before stop) (c : Cursor)
    (h : (many step c).Clean) : ∃ ss ∈ I∗ * maybe T, c.Spells ss (many step c).rest := by
  fun_induction many step c with
  | case1 c first hn =>
    rw [show first.rest = c from congrArg Outcome.rest (hs.ends hn)]
    exact ⟨[], Language.mem_mul.mpr ⟨[], nil_mem_star I, [], .inl rfl, rfl⟩, .refl c⟩
  | case2 c first d hd hlt tail ih =>
    obtain ⟨hfirst, htail⟩ : first.Clean ∧ tail.Clean := Outcome.clean_append.mp h
    rcases hl.sound c (by simp [first, hd] : (step c).value ≠ none) hfirst with
      ⟨w, hw, hsp⟩ | ⟨w, hw, hsp, hnone⟩
    · obtain ⟨v, hv, hspv⟩ := ih htail
      obtain ⟨a, ha, b, hb, rfl⟩ := Language.mem_mul.mp hv
      refine ⟨w ++ (a ++ b), ?_, hsp.trans hspv⟩
      exact Language.mem_mul.mpr ⟨w ++ a, cons_mem_star hw ha, b, hb, List.append_assoc ..⟩
    · have htail : tail = ⟨[], first.rest, [], []⟩ := hs.many_of_none hnone
      refine ⟨w, Language.mem_mul.mpr ⟨[], nil_mem_star I, w, .inr hw, rfl⟩, ?_⟩
      rw [htail]
      exact hsp
  | case3 c first d hd hlt => exact absurd (hs.goesOn hd).2.2 hlt

theorem Loop.many_complete (hs : Steps step role) (hl : Loop step I T before stop)
    (h : ss ∈ I∗ * maybe T) (hc : c.Spells ss c') (hF : stop c') :
    (many step c).Clean ∧ (many step c).rest = c' := by
  obtain ⟨a, ha, b, hb, rfl⟩ := Language.mem_mul.mp h
  obtain ⟨words, rfl, hwords⟩ := Language.mem_kstar.mp ha
  have hend : (many step c').Clean ∧ (many step c').rest = c' := by
    rw [hs.many_of_none (hl.stops c' hF)]
    exact ⟨by simp [Outcome.Clean], rfl⟩
  clear h ha
  induction words generalizing c with
  | nil =>
    rcases hb with hb | hb
    · cases (Language.mem_one ..).mp hb
      exact hc.nil ▸ hend
    · exact (hl.last b c c' hb hc hF).many hs hend
  | cons w words ih =>
    have hrest : ∀ v ∈ words, v ∈ I := fun v hv => hwords v (List.mem_cons_of_mem _ hv)
    have hmem : words.flatten ++ b ∈ I∗ * maybe T :=
      Language.mem_mul.mpr ⟨_, Language.mem_kstar.mpr ⟨words, rfl, hrest⟩, b, hb, rfl⟩
    rw [List.flatten_cons, List.append_assoc] at hc
    obtain ⟨c₁, h₁, h₂⟩ := hc.split
    have hbefore := hl.leads _ c₁ c' hmem h₂ hF
    exact (hl.item w c c₁ (hwords w (List.mem_cons_self ..)) h₁ hbefore).many hs (ih hrest h₂)

/-- A loop recognizes the repetition of what its steps recognize. -/
theorem Loop.recognizes (hs : Steps step role) (hl : Loop step I T before stop) (c : Cursor) :
    (many step c).Recognizes c (I∗ * maybe T) stop :=
  ⟨hl.many_sound hs c, fun h hc hF => hl.many_complete hs h hc hF⟩

/-- A loop that reads items where a sign says so, and otherwise ends or reports an error. -/
theorem Loop.of_items {P : Sign → Prop} {item : Production Draft}
    (hgo : ∀ c, P c.sign → step c = (some <$> item) c)
    (hother : ∀ c, ¬P c.sign → (step c).value = none ∨ ¬(step c).Clean)
    (hr : ∀ c, P c.sign → (item c).Recognizes c I before) (hl : Opens I P)
    (hbefore : ∀ c, P c.sign → before c)
    (hstop : ∀ c, stop c → (step c).value = none ∧ before c) : Loop step I 0 before stop := by
  refine ⟨fun c hn hc => ?_, fun ss c c' hs hsp hF => ?_, ?_, fun c h => (hstop c h).1, ?_⟩
  · by_cases hp : P c.sign
    · have hx := hgo c hp
      rw [map_apply] at hx
      rw [hx] at hc ⊢
      exact .inl ((hr c hp).sound hc)
    · exact (hother c hp).elim (fun h => absurd h hn) (absurd hc)
  · have hp := hl.sign hs hsp
    exact .of_item (hgo c hp) ((hr c hp).complete hs hsp hF)
  · exact fun ss _ _ hs => absurd hs (Language.notMem_zero ss)
  · refine leads_star_mul hl hbefore (.add (.one fun c h => (hstop c h).2) ?_)
    exact fun ss _ _ hs => absurd hs (Language.notMem_zero ss)

theorem Loop.star_recognizes (hs : Steps step role) (hl : Loop step I 0 before stop) (c : Cursor) :
    (many step c).Recognizes c I∗ stop := by
  have h := hl.recognizes hs c
  rwa [maybe, add_zero, mul_one] at h

end Loop

/-! ## Blocks -/

section Block

variable {starts : KindSet} {item : Production Draft} {I T : Language Sign} {c : Cursor}
  {F : Cursor → Prop}

theorem unexpected_not_clean (starts : KindSet) {c : Cursor} (h : c.kind ≠ .eof) :
    ¬(unexpected starts c).Clean := by
  obtain ⟨l, more, count, -, hx⟩ := unexpected_apply starts h
  exact Outcome.not_clean (d := (Problem.unexpected l.kind).reportAt c.span) (by simp [hx]) rfl

/-- Behind an item of a block comes another one, or the end of the block. -/
def MoreOrEnd (starts : KindSet) (c : Cursor) : Prop :=
  starts.contains c.kind ∨ c.kind = .rightBrace

/-- What the items of a block do. Some of them can only be its last one. -/
structure Items (starts : KindSet) (item : Production Draft) (I T : Language Sign) : Prop where
  reads : ∀ c, starts.contains c.kind → Item item .plain c
  finishes : ∀ c, starts.contains c.kind → (item c).Finishes c I T (MoreOrEnd starts)
  opens : Opens I fun s => starts.contains s.kind
  opensLast : Opens T fun s => starts.contains s.kind
  ends : starts.contains .rightBrace = false ∧ starts.contains .eof = false

theorem blockStep_item (h : starts.contains c.kind)
    (he : starts.contains .rightBrace = false ∧ starts.contains .eof = false) :
    blockStep starts item c = (some <$> item) c := by
  have hk : ¬(c.kind = .rightBrace ∨ c.kind = .eof) := by
    rintro (hk | hk)
    · simp [hk, he.1] at h
    · simp [hk, he.2] at h
  rw [blockStep_apply, if_neg hk, blockItem, if_pos h]

theorem Items.loop (hi : Items starts item I T) :
    Loop (blockStep starts item) I T (MoreOrEnd starts) fun c => c.kind = .rightBrace := by
  have hgoes {c c' : Cursor} (hs : starts.contains c.kind)
      (hg : (item c).Clean ∧ (item c).rest = c') : Goes (blockStep starts item) c c' :=
    .of_item (blockStep_item hs hi.ends) hg
  have hstops {c : Cursor} (h : c.kind = .rightBrace ∨ c.kind = .eof) :
      (blockStep starts item c).value = none := by
    rw [blockStep_apply, if_pos h]
  refine ⟨fun c hn hc => ?_, fun ss c c' hs hsp hF => ?_, fun ss c c' hs hsp hF => ?_,
    fun c h => hstops (.inl h), ?_⟩
  · have hk : ¬(c.kind = .rightBrace ∨ c.kind = .eof) := fun hk => hn (hstops hk)
    by_cases hs : starts.contains c.kind
    · have hx := @blockStep_item starts item c hs hi.ends
      rw [map_apply] at hx
      rw [hx] at hc ⊢
      rcases (hi.finishes c hs).sound hc with h | ⟨ss, hss, hsp, hend⟩
      · exact .inl h
      · exact .inr ⟨ss, hss, hsp, hstops hend⟩
    · have hx : blockStep starts item c = (some <$> unexpected starts) c := by
        rw [blockStep_apply, if_neg hk, blockItem, if_neg hs]
      rw [hx, map_apply] at hc
      exact absurd hc (unexpected_not_clean starts (not_or.mp hk).2)
  · have hstart := hi.opens.sign hs hsp
    exact hgoes hstart ((hi.finishes c hstart).complete hs hsp hF)
  · have hstart := hi.opensLast.sign hs hsp
    exact hgoes hstart ((hi.finishes c hstart).last hs hsp (.inl hF))
  · exact leads_star_mul hi.opens (fun _ h => .inl h)
      (leads_maybe hi.opensLast (fun _ h => .inl h) fun _ h => .inr h)

/-- A block recognizes its items in braces. -/
theorem block_recognizes (hi : Items starts item I T) (c : Cursor) :
    (block starts item c).Recognizes c (braces (I∗ * maybe T)) F := by
  rw [block_apply]
  split
  · next h =>
    rw [braces, mul_assoc]
    refine .andThen (takeKind_recognizes h (by decide)) ?_
    refine .bind (hi.loop.recognizes (blockStep_steps hi.reads) _) (.last (expect_recognizes (by decide) _)) ?_
    exact .of_opens (opens_one _) fun _ h => h
  · next h =>
    refine .refuse (fun hc => ?_) fun hs hsp _ => h ((opens_braces _).sign hs hsp)
    exact lacking_not_clean .leftBrace rfl c (Outcome.clean_append.mp hc).1

/-- Items that do not care what follows. -/
theorem Items.of_recognizes (hr : ∀ c, starts.contains c.kind → Item item .plain c)
    (h : ∀ c, starts.contains c.kind → (item c).Recognizes c I fun _ => True)
    (ho : Opens I fun s => starts.contains s.kind)
    (he : starts.contains .rightBrace = false ∧ starts.contains .eof = false) :
    Items starts item I 0 := by
  refine ⟨hr, fun c hs => ?_, ho, fun ss hs => absurd hs (Language.notMem_zero ss), he⟩
  exact ((h c hs).before fun _ _ => trivial).finishes

theorem star_recognizes (hi : Items starts item I 0) (c : Cursor) :
    (block starts item c).Recognizes c (braces I∗) F := by
  have h := @block_recognizes starts item I 0 F hi c
  rwa [maybe, add_zero, mul_one] at h

end Block

/-! ## Separated lists -/

section Separated

variable {listed : Listed} {starts : Cursor → Bool} {item : Production Draft} {role : SlotRole}
  {I : Language Sign} {before stop : Cursor → Prop} {c : Cursor} {o : Outcome (List Draft)}

/-- What the items of a separated list do. -/
structure Listing (starts : Cursor → Bool) (item : Production Draft) (I : Language Sign)
    (before stop : Cursor → Prop) : Prop where
  shorter : ∀ c, starts c → (item c).rest.ahead.length < c.ahead.length
  recognizes : ∀ c, starts c → (item c).Recognizes c I before
  opens : ∀ ss c c', ss ∈ I → c.Spells ss c' → starts c
  next : ∀ ss c c', ss ∈ one .comma * I → c.Spells ss c' → before c
  last : ∀ c, stop c → before c ∧ c.kind ≠ .comma ∧ starts c = false

theorem list_cons {a m b : List Sign} (ha : a ∈ I) (hm : m ∈ one .comma) (hb : b ∈ Grammar.list I) :
    a ++ (m ++ b) ∈ Grammar.list I := by
  obtain ⟨x, hx, y, hy, rfl⟩ := Language.mem_mul.mp hb
  refine Language.mem_mul.mpr ⟨a, ha, m ++ x ++ y, ?_, by simp⟩
  exact cons_mem_star (Language.mem_mul.mpr ⟨m, hm, x, hx, rfl⟩) hy

/-- Where nothing is missing and nothing too much, a separated list is a word. -/
theorem Separated.sound (hl : Listing starts item I before stop)
    (h : Separated listed starts item c o) (hs : starts c) (hc : o.Clean) :
    ∃ ss ∈ Grammar.list I, c.Spells ss o.rest := by
  induction h with
  | nothing hn => simp [hn] at hs
  | last h hk hn =>
    obtain ⟨ss, hss, hsp⟩ := (hl.recognizes _ h).sound hc
    exact ⟨ss, Language.mem_mul.mpr ⟨ss, hss, [], nil_mem_star _, List.append_nil ss⟩, hsp⟩
  | trailing =>
    exact absurd hc (Outcome.not_clean (List.mem_append_right _ (List.mem_singleton_self _)) rfl)
  | @next c l c' o h hp hk hn ht ih =>
    obtain ⟨hfirst, htail⟩ : (item c).Clean ∧ o.Clean := Outcome.clean_append.mp hc
    obtain ⟨a, ha, hspa⟩ := (hl.recognizes _ h).sound hfirst
    obtain ⟨b, hb, hspb⟩ := ih hn htail
    have hcomma : (item c).rest.Spells [⟨l.kind, _⟩] c' := ⟨[l], hp, rfl⟩
    exact ⟨_, list_cons ha ⟨_, hk, rfl⟩ hb, hspa.trans (hcomma.trans hspb)⟩
  | gap => exact absurd hc (Outcome.not_clean (List.mem_append_right _ (List.mem_cons_self ..)) rfl)

/-- What each item leaves behind, the list does. -/
theorem Separated.leaves {Q : Cursor → Prop}
    (hq : ∀ c, starts c → (item c).Clean → Q (item c).rest)
    (h : Separated listed starts item c o) (hs : starts c) (hc : o.Clean) : Q o.rest := by
  induction h with
  | nothing hn => simp [hn] at hs
  | last h hk hn => exact hq _ h hc
  | trailing =>
    exact absurd hc (Outcome.not_clean (List.mem_append_right _ (List.mem_singleton_self _)) rfl)
  | @next c l c' o h hp hk hn ht ih =>
    obtain ⟨-, htail⟩ : (item c).Clean ∧ o.Clean := Outcome.clean_append.mp hc
    exact ih hn htail
  | gap => exact absurd hc (Outcome.not_clean (List.mem_append_right _ (List.mem_cons_self ..)) rfl)

theorem Listing.complete (hl : Listing starts item I before stop) {ss : List Sign} {c c' : Cursor}
    (h : ss ∈ Grammar.list I) (hc : c.Spells ss c') (hF : stop c') :
    (separated listed starts item c).Clean ∧ (separated listed starts item c).rest = c' := by
  obtain ⟨a, ha, b, hb, rfl⟩ := Language.mem_mul.mp h
  obtain ⟨words, rfl, hwords⟩ := Language.mem_kstar.mp hb
  clear h hb
  induction words generalizing a c with
  | nil =>
    rw [List.flatten_nil, List.append_nil] at hc
    have hs := hl.opens a c c' ha hc
    obtain ⟨hbefore, hk, hn⟩ := hl.last c' hF
    obtain ⟨hclean, hrest⟩ := (hl.recognizes c hs).complete ha hc hbefore
    have hstep := @separatedStep_last listed starts item c hs (hrest ▸ hk) (hrest ▸ hn)
    rw [separated_cons hstep (hl.shorter c hs), hrest, separated_nothing hn]
    exact ⟨by simpa [Outcome.Clean] using hclean, rfl⟩
  | cons w words ih =>
    have hw := hwords w (List.mem_cons_self ..)
    obtain ⟨m, ⟨s, hm, rfl⟩, x, hx, rfl⟩ := Language.mem_mul.mp hw
    obtain ⟨c₁, h₁, h₂⟩ := hc.split
    rw [List.flatten_cons, List.append_assoc] at h₂
    have hs := hl.opens a c c₁ ha h₁
    obtain ⟨c₂, hcomma, hmore⟩ := h₂.split
    obtain ⟨c₃, hx₃, -⟩ := hmore.split
    have hbefore := hl.next _ c₁ c₃ hw (hcomma.trans hx₃)
    obtain ⟨hclean, rfl⟩ := (hl.recognizes c hs).complete ha h₁ hbefore
    have hnext := hl.opens x c₂ c₃ hx hx₃
    obtain ⟨l, rest, hahead, hlk⟩ :=
      Cursor.exists_ahead (c := (item c).rest) (by simp [hcomma.kind_eq, hm])
    have hlast : c₂ = (item c).rest.advance 1 := hcomma.end_eq
    have hstep := @separatedStep_comma listed starts item c c₂ l rest hs hahead
      (hlk.trans (hcomma.kind_eq.trans hm)) hlast
    rw [if_pos hnext, List.append_nil] at hstep
    have hshort : c₂.ahead.length < c.ahead.length := by
      have hone := (Cursor.passes_one hahead).length_le
      rw [← hlast] at hone
      exact Nat.lt_of_le_of_lt hone (hl.shorter c hs)
    obtain ⟨htail, hend⟩ := ih x hx (fun v hv => hwords v (List.mem_cons_of_mem _ hv)) hmore
    rw [separated_cons hstep hshort]
    exact ⟨Outcome.clean_append.mpr ⟨hclean, htail⟩, hend⟩

/-- A separated list that starts with an item recognizes items with commas between them. -/
theorem separated_recognizes (hl : Listing starts item I before stop) (hs : starts c) :
    (separated listed starts item c).Recognizes c (Grammar.list I) stop :=
  ⟨(separated_separated hl.shorter c).sound hl hs, fun h hc hF => hl.complete h hc hF⟩

/-- A separated list may be empty. -/
theorem separated_maybe_recognizes (hl : Listing starts item I before stop) (c : Cursor) :
    (separated listed starts item c).Recognizes c (maybe (Grammar.list I)) stop := by
  have hstarts {ss : List Sign} {c' : Cursor} (h : ss ∈ Grammar.list I) (hc : c.Spells ss c') :
      starts c := by
    obtain ⟨a, ha, b, -, rfl⟩ := Language.mem_mul.mp h
    obtain ⟨c₁, h₁, -⟩ := hc.split
    exact hl.opens a c c₁ ha h₁
  cases hs : starts c with
  | true =>
    refine (separated_recognizes hl hs).widen (fun _ h => .inr h) fun h hc hF => ?_
    refine h.elim (fun h => ?_) fun h => h
    cases (Language.mem_one ..).mp h
    rw [← hc.nil, (hl.last _ hF).2.2] at hs
    cases hs
  | false =>
    rw [separated_nothing hs]
    refine (Outcome.Recognizes.nothing [] c).widen (fun _ h => .inl h) fun h hc _ => ?_
    refine h.elim (fun h => h) fun h => ?_
    rw [hstarts h hc] at hs
    cases hs

end Separated

end Production

end Stylesheet
