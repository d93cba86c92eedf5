import Stylesheet.Proofs.Joining.Scanning

/-!
# The lexicon

The lexemes of a style sheet are given by a table: marks with one spelling each, numbers, words,
and strings. Among all that match at the front of a text a scan takes the longest, and what no
entry matches is one unknown character.

An entry is matched against what stands behind it too, for a string without its second quote is one
only where its line ends.

Results:
* `Cut.lexeme_matches`: what a cut takes matches, with its kind.
* `Lexicon.Matches.within`: no match is longer, and none as long has another kind.
* `Lexemes.scan_munches`: each lexeme of a text is the longest match at its place.
-/
namespace Stylesheet

namespace Lexicon

/-! ## The table -/

def marks : List (Text × Kind) :=
  [(['\x7b'], .leftBrace), (['\x7d'], .rightBrace), (['('], .leftParen), ([')'], .rightParen),
    (['['], .leftBracket), ([']'], .rightBracket), ([':'], .colon), ([';'], .semicolon),
    ([','], .comma), (['.'], .period), (['#'], .hash), (['@'], .atSign), (['*'], .asterisk),
    (['!'], .exclamationMark), (['|'], .pipe), (['+'], .plus), (['-'], .minus), (['/'], .slash),
    (['%'], .percent), (['='], .equals), (['<', '>'], .notEquals), (['<'], .lessThan),
    (['<', '='], .lessThanEquals), (['>'], .greaterThan), (['>', '='], .greaterThanEquals),
    (['>', '>'], .greaterThanGreaterThan), (['>', '?'], .greaterThanQuestionMark)]

def keywords : List (Text × Kind) :=
  [("animation".toList, .animationKeyword), ("as".toList, .asKeyword),
    ("event".toList, .eventKeyword), ("handled".toList, .handledKeyword),
    ("important".toList, .importantKeyword), ("keyframe".toList, .keyframeKeyword),
    ("play-sfx".toList, .playSfxKeyword), ("play-storyboard".toList, .playStoryboardKeyword),
    ("property".toList, .propertyKeyword), ("set".toList, .setKeyword),
    ("set-handled".toList, .setHandledKeyword), ("target".toList, .targetKeyword),
    ("transition".toList, .transitionKeyword), ("trigger".toList, .triggerKeyword)]

def Digit (c : Char) : Prop := '0' ≤ c ∧ c ≤ '9'

def Letter (c : Char) : Prop := 'A' ≤ c ∧ c ≤ 'Z' ∨ 'a' ≤ c ∧ c ≤ 'z'

def Digits (word : Text) : Prop := word ≠ [] ∧ ∀ c ∈ word, Digit c

/-- Nothing, or a period and digits. -/
def Fraction (word : Text) : Prop := word = [] ∨ ∃ digits, word = '.' :: digits ∧ Digits digits

def Number (word : Text) : Prop :=
  ∃ sign whole fraction, word = sign ++ (whole ++ fraction) ∧ (sign = [] ∨ sign = ['-'])
    ∧ Digits whole ∧ Fraction fraction

def Name (word : Text) : Prop :=
  ∃ c cs, word = c :: cs ∧ (Letter c ∨ c = '_') ∧ ∀ d ∈ cs, Letter d ∨ Digit d ∨ d = '_' ∨ d = '-'

/-- What may stand behind the opening quote of a string, up to its closing one. -/
inductive Quoted (quote : Char) : Text → Prop
  | nil : Quoted quote []
  | plain {c : Char} {cs : Text} : c ≠ quote → c ≠ '\\' → c ≠ '\r' → c ≠ '\n' → Quoted quote cs →
    Quoted quote (c :: cs)
  | escape {c : Char} {cs : Text} : c ≠ '\r' → c ≠ '\n' → Quoted quote cs →
    Quoted quote ('\\' :: c :: cs)

/-- A line ends at the front of a text, or the text itself. -/
def LineEnds (text : Text) : Prop := ∀ c ∈ text.head?, c = '\r' ∨ c = '\n'

def Quote (c : Char) : Prop := c = '"' ∨ c = '\''

/-- A text is a lexeme of a kind where a rest stands behind it. -/
inductive Matches : Kind → Text → Text → Prop
  | mark {kind : Kind} {word rest : Text} : (word, kind) ∈ marks → Matches kind word rest
  | number {word rest : Text} : Number word → Matches .number word rest
  | keyword {kind : Kind} {word rest : Text} : Name word → (word, kind) ∈ keywords →
    Matches kind word rest
  | identifier {word rest : Text} : Name word → (∀ kind, (word, kind) ∉ keywords) →
    Matches .identifier word rest
  | string {quote : Char} {body rest : Text} : Quote quote → Quoted quote body →
    Matches .string (quote :: (body ++ [quote])) rest
  | unclosed {quote : Char} {body rest : Text} : Quote quote → Quoted quote body → LineEnds rest →
    Matches .string (quote :: body) rest
  -- The last backslash has no character to take with it.
  | dangling {quote : Char} {body rest : Text} : Quote quote → Quoted quote body → LineEnds rest →
    Matches .string (quote :: (body ++ ['\\'])) rest

/-- The longest match at the front of a text, whatever entry it comes from, or else one character. -/
inductive Munch : Kind → Text → Text → Prop
  | longest {kind : Kind} {word rest : Text} : Matches kind word rest →
    (∀ kind' word' rest', word' ++ rest' = word ++ rest → Matches kind' word' rest' →
      word'.length < word.length ∨ word' = word ∧ kind' = kind) →
    Munch kind word rest
  | unknown {c : Char} {rest : Text} :
    (∀ kind word rest', word ++ rest' = c :: rest → ¬ Matches kind word rest') →
    Munch .unknown [c] rest

/-- No white space and no comment starts a text. -/
def Plain (text : Text) : Prop :=
  (∀ c ∈ text.head?, ¬ isBlank c) ∧ ¬ ['/', '/'] <+: text ∧ ¬ ['/', '*'] <+: text

/-! ## Characters -/

theorem digit_iff {c : Char} : Digit c ↔ c.isDigit := by
  simp [Digit, Char.isDigit, Char.le_def]

theorem upper_iff {c : Char} : c.isUpper ↔ 'A' ≤ c ∧ c ≤ 'Z' := decide_eq_true_iff

theorem lower_iff {c : Char} : c.isLower ↔ 'a' ≤ c ∧ c ≤ 'z' :=
  (Bool.and_eq_true _ _).to_iff.trans (and_congr decide_eq_true_iff decide_eq_true_iff)

theorem letter_iff {c : Char} : Letter c ↔ c.isAlpha := by
  rw [show c.isAlpha = (c.isUpper || c.isLower) from rfl, Bool.or_eq_true, upper_iff, lower_iff]
  rfl

theorem wordStart_iff {c : Char} : Letter c ∨ c = '_' ↔ Cut.isWordStart c := by
  simp [Cut.isWordStart, letter_iff]

theorem wordPart_iff {c : Char} : Letter c ∨ Digit c ∨ c = '_' ∨ c = '-' ↔ Cut.isWordPart c := by
  simp [Cut.isWordPart, letter_iff, digit_iff, Char.isAlphanum, or_assoc]

/-- No digit starts a word. -/
theorem not_digit_of_wordStart {c : Char} (h : Letter c ∨ c = '_') : ¬ Digit c := by
  rintro ⟨-, hnine⟩
  rcases h with (⟨ha, -⟩ | ⟨ha, -⟩) | rfl
  · exact absurd (Char.le_trans ha hnine) (by decide)
  · exact absurd (Char.le_trans ha hnine) (by decide)
  · exact absurd hnine (by decide)

theorem lineEnd_iff {c : Char} : c = '\r' ∨ c = '\n' ↔ isLineEnd c := by
  simp [isLineEnd, or_comm]

/-- What a test holds of in front of a text is part of what it takes. -/
theorem length_le_takeWhile {p : Char → Bool} {word : Text} (h : ∀ c ∈ word, p c) (rest : Text) :
    word.length ≤ ((word ++ rest).takeWhile p).length := by
  rw [List.takeWhile_append_of_pos h, List.length_append]
  exact Nat.le_add_right _ _

/-! ## Words -/

theorem mem_keywords_iff {word : Text} {kind : Kind} :
    (word, kind) ∈ keywords ↔ Kind.ofKeyword? (String.ofList word) = some kind := by
  constructor
  · have hall : ∀ p ∈ keywords, Kind.ofKeyword? (String.ofList p.1) = some p.2 := by decide
    exact hall (word, kind)
  · intro h
    obtain ⟨before, after, hk, -⟩ := List.lookup_eq_some_iff.mp h
    have hall : ∀ p ∈ Kind.keywords, (p.1.toList, p.2) ∈ keywords := by decide
    simpa using hall (String.ofList word, kind) (by simp [hk])

/-- A word is the keyword it is written as, or an identifier. -/
theorem matches_name {word : Text} (h : Name word) (rest : Text) :
    Matches (Cut.wordKind word) word rest := by
  unfold Cut.wordKind
  cases hk : Kind.ofKeyword? (String.ofList word) with
  | none =>
    refine .identifier h fun kind hmem => ?_
    rw [mem_keywords_iff, hk] at hmem
    cases hmem
  | some kind => exact .keyword h (mem_keywords_iff.mpr hk)

/-! ## Numbers -/

theorem takeWhile_digits {digits : Text} (h : ∀ c ∈ digits, Digit c) (rest : Text) :
    (digits ++ '.' :: rest).takeWhile Char.isDigit = digits
      ∧ (digits ++ '.' :: rest).dropWhile Char.isDigit = '.' :: rest := by
  have hdigits : ∀ c ∈ digits, c.isDigit := fun c hc => digit_iff.mp (h c hc)
  rw [List.takeWhile_append_of_pos hdigits, List.dropWhile_append_of_pos hdigits]
  exact ⟨List.append_nil digits, rfl⟩

theorem digits_takeWhile (text : Text) : ∀ c ∈ text.takeWhile Char.isDigit, Digit c :=
  fun c hc => digit_iff.mpr (List.all_eq_true.mp List.all_takeWhile c hc)

/-- The rest of a number is digits and a fraction. -/
theorem exists_fraction (text : Text) :
    ∃ digits fraction rest, text = digits ++ fraction ++ rest
      ∧ digits = text.takeWhile Char.isDigit ∧ Fraction fraction
      ∧ Cut.numberTail text = (digits ++ fraction).length := by
  have htext := (List.takeWhile_append_dropWhile (p := Char.isDigit) (l := text)).symm
  fun_cases Cut.numberTail text with
  | case1 digits d rest hdrop hdigit =>
    have hrest := (List.takeWhile_append_dropWhile (p := Char.isDigit) (l := rest)).symm
    refine ⟨_, '.' :: d :: rest.takeWhile Char.isDigit, rest.dropWhile Char.isDigit, ?_, rfl,
      .inr ⟨_, rfl, by simp, ?_⟩, by simp [digits]; omega⟩
    · rwa [List.append_assoc, List.cons_append, List.cons_append, ← hrest, ← hdrop]
    · intro c hc
      rcases List.mem_cons.mp hc with rfl | hc
      · exact digit_iff.mpr hdigit
      · exact digits_takeWhile _ c hc
  | case2 digits | case3 digits =>
    exact ⟨_, [], text.dropWhile Char.isDigit, by rwa [List.append_nil], rfl, .inl rfl,
      by simp [digits]⟩

/-- Digits and a fraction at the front of a text are part of the rest of a number there. -/
theorem length_le_numberTail {digits fraction : Text} (hd : ∀ c ∈ digits, Digit c)
    (hf : Fraction fraction) (rest : Text) :
    (digits ++ fraction).length ≤ Cut.numberTail (digits ++ (fraction ++ rest)) := by
  obtain rfl | ⟨more, rfl, hnil, hmore⟩ := hf
  · have hle := length_le_takeWhile (p := Char.isDigit) (fun c hc => digit_iff.mp (hd c hc)) rest
    rw [List.append_nil, List.nil_append]
    fun_cases Cut.numberTail (digits ++ rest) <;> omega
  · obtain ⟨d, ds, rfl⟩ := List.exists_cons_of_ne_nil hnil
    obtain ⟨htake, hdrop⟩ := takeWhile_digits hd (d :: ds ++ rest)
    have hle := length_le_takeWhile (p := Char.isDigit)
      (fun c hc => digit_iff.mp (hmore c (.tail _ hc))) rest
    have hdigit : d.isDigit := digit_iff.mp (hmore d (.head _))
    unfold Cut.numberTail
    simp only [List.cons_append] at htake hdrop ⊢
    rw [htake, hdrop]
    simp only [hdigit, if_true, List.length_append, List.length_cons]
    omega

theorem numberTail_cons {d : Char} (hd : d.isDigit) (cs : Text) :
    Cut.numberTail (d :: cs) = Cut.numberTail cs + 1 := by
  unfold Cut.numberTail
  rw [List.takeWhile_cons_of_pos hd, List.dropWhile_cons_of_pos hd, List.length_cons]
  split
  · dsimp only
    split <;> omega
  · rfl

theorem number_take {sign : Text} (hs : sign = [] ∨ sign = ['-']) {d : Char} (hd : d.isDigit)
    (cs : Text) : Number (sign ++ (d :: cs).take (Cut.numberTail (d :: cs))) := by
  obtain ⟨digits, fraction, rest, htext, hdigits, hfraction, htail⟩ := exists_fraction (d :: cs)
  have hnil : digits ≠ [] := by
    rw [hdigits, List.takeWhile_cons_of_pos hd]
    exact List.cons_ne_nil _ _
  refine ⟨sign, digits, fraction, ?_, hs, ⟨hnil, ?_⟩, hfraction⟩
  · rw [htail, htext, List.take_left]
  · rw [hdigits]
    exact digits_takeWhile (d :: cs)

/-! ## Strings -/

theorem Quote.ne_backslash {quote : Char} (h : Quote quote) : quote ≠ '\\' := by
  rcases h with rfl | rfl <;> decide

theorem stringTail_quoted {quote : Char} {body : Text} (h : Quoted quote body) (rest : Text) :
    Cut.stringTail quote (body ++ rest)
      = ((Cut.stringTail quote rest).1 + body.length, (Cut.stringTail quote rest).2) := by
  induction h with
  | nil => rfl
  | @plain c cs hq hb hr hn _ ih =>
    have hline : ¬ isLineEnd c := fun h => (lineEnd_iff.mpr h).elim hr hn
    rw [List.cons_append, Cut.stringTail_other hb, if_neg hline, if_neg hq, ih]
    simp [Nat.add_assoc]
  | @escape c cs hr hn _ ih =>
    have hline : ¬ isLineEnd c := fun h => (lineEnd_iff.mpr h).elim hr hn
    rw [List.cons_append, List.cons_append, Cut.stringTail, if_neg hline, ih]
    simp [Nat.add_assoc]

theorem stringTail_closed {quote : Char} (h : Quote quote) (rest : Text) :
    Cut.stringTail quote (quote :: rest) = (1, true) := by
  rw [Cut.stringTail_other h.ne_backslash, if_neg, if_pos rfl]
  rcases h with rfl | rfl <;> decide

theorem stringTail_unclosed {quote : Char} {rest : Text} (h : LineEnds rest) :
    Cut.stringTail quote rest = (0, false) := by
  cases rest with
  | nil => rfl
  | cons c cs =>
    have hline := h c rfl
    rw [Cut.stringTail_other (by rintro rfl; simp at hline), if_pos (lineEnd_iff.mp hline)]

theorem stringTail_dangling {quote : Char} {rest : Text} (h : LineEnds rest) :
    Cut.stringTail quote ('\\' :: rest) = (1, false) := by
  cases rest with
  | nil => rfl
  | cons c cs => rw [Cut.stringTail, if_pos (lineEnd_iff.mp (h c rfl))]

/-- A string goes on up to its quote, or to the end of its line. -/
theorem exists_quoted (quote : Char) (text : Text) :
    ∃ body rest, text = body ++ rest ∧ Quoted quote body
      ∧ ((∃ more, rest = quote :: more) ∨ LineEnds rest
        ∨ ∃ more, rest = '\\' :: more ∧ LineEnds more) := by
  fun_induction Cut.stringTail quote text with
  | case1 => exact ⟨[], [], rfl, .nil, .inr (.inl (by simp [LineEnds]))⟩
  | case2 => exact ⟨[], ['\\'], rfl, .nil, .inr (.inr ⟨[], rfl, by simp [LineEnds]⟩)⟩
  | case3 c cs hc =>
    refine ⟨[], '\\' :: c :: cs, rfl, .nil, .inr (.inr ⟨c :: cs, rfl, ?_⟩)⟩
    simpa [LineEnds] using lineEnd_iff.mpr hc
  | case4 c cs hc n closed hx ih =>
    obtain ⟨body, rest, rfl, hbody, hrest⟩ := ih
    rw [← lineEnd_iff, not_or] at hc
    exact ⟨'\\' :: c :: body, rest, rfl, .escape hc.1 hc.2 hbody, hrest⟩
  | case5 c cs _ _ hc =>
    refine ⟨[], c :: cs, rfl, .nil, .inr (.inl ?_)⟩
    simpa [LineEnds] using lineEnd_iff.mpr hc
  | case6 cs => exact ⟨[], quote :: cs, rfl, .nil, .inl ⟨cs, rfl⟩⟩
  | case7 c cs hnil hcons hc hq n closed hx ih =>
    obtain ⟨body, rest, rfl, hbody, hrest⟩ := ih
    have hb : c ≠ '\\' := fun hb => by
      cases hcs : body ++ rest with
      | nil => exact hnil hb hcs
      | cons d ds => exact hcons d ds hb hcs
    rw [← lineEnd_iff, not_or] at hc
    exact ⟨c :: body, rest, rfl, .plain hq hb hc.1 hc.2 hbody, hrest⟩

end Lexicon

/-! ## Cuts -/

namespace Cut

open Lexicon

theorem lexeme_digit {c : Char} (h : c.isDigit) (cs : Text) :
    lexeme c cs = ⟨.number, numberTail cs, none⟩ := by
  have hmarks : ∀ d ∈ singles ++ ['<', '>', '-'], ¬ d.isDigit := by simp [singles]
  rw [lexeme_other (fun hc => hmarks c (by simp [hc]) h) (fun hc => hmarks c (by simp [hc]) h),
    if_pos h]

theorem lexeme_wordStart {c : Char} (h : isWordStart c) (cs : Text) :
    lexeme c cs
      = ⟨wordKind (c :: cs.takeWhile isWordPart), (cs.takeWhile isWordPart).length, none⟩ := by
  have hmarks : ∀ d ∈ singles ++ ['<', '>', '-'], ¬ isWordStart d := by
    simp [singles, isWordStart]
  have hdigit : ¬ c.isDigit := by
    rw [← digit_iff]
    exact not_digit_of_wordStart (wordStart_iff.mpr h)
  rw [lexeme_other (fun hc => hmarks c (by simp [hc]) h) (fun hc => hmarks c (by simp [hc]) h),
    if_neg hdigit, if_pos h]

theorem lexeme_quote {c : Char} (h : Quote c) (cs : Text) :
    lexeme c cs = ⟨.string, (stringTail c cs).1,
      if (stringTail c cs).2 then none else some .unterminatedString⟩ := by
  rcases h with rfl | rfl <;> rfl

theorem matches_string {quote : Char} (h : Quote quote) (cs : Text) :
    Matches .string (quote :: cs.take (stringTail quote cs).1)
      (cs.drop (stringTail quote cs).1) := by
  obtain ⟨body, rest, rfl, hbody, hrest⟩ := exists_quoted quote cs
  rw [stringTail_quoted hbody, Nat.add_comm _ body.length, List.take_length_add_append,
    List.drop_length_add_append]
  obtain ⟨more, rfl⟩ | hline | ⟨more, rfl, hline⟩ := hrest
  · rw [stringTail_closed h]
    exact .string h hbody
  · rw [stringTail_unclosed hline, List.take_zero, List.append_nil]
    exact .unclosed h hbody hline
  · rw [stringTail_dangling hline]
    exact .dangling h hbody hline

/-- What a cut takes matches, unless it is unknown. -/
theorem lexeme_matches (c : Char) (cs : Text) :
    (lexeme c cs).kind ≠ .unknown →
      Matches (lexeme c cs).kind (c :: cs.take (lexeme c cs).more)
        (cs.drop (lexeme c cs).more) := by
  by_cases hd : c.isDigit
  · have hnumber := number_take (.inl rfl) hd cs
    rw [numberTail_cons hd, List.nil_append, List.take_succ_cons] at hnumber
    rw [lexeme_digit hd]
    exact fun _ => .number hnumber
  by_cases hw : isWordStart c
  · have htake : cs.take (cs.takeWhile isWordPart).length = cs.takeWhile isWordPart :=
      List.prefix_iff_eq_take.mp (List.takeWhile_prefix isWordPart) |>.symm
    have hname : Name (c :: cs.takeWhile isWordPart) :=
      ⟨c, _, rfl, wordStart_iff.mpr hw,
        fun d hd => wordPart_iff.mpr (List.all_eq_true.mp List.all_takeWhile d hd)⟩
    rw [lexeme_wordStart hw]
    simp only [htake]
    exact fun _ => matches_name hname _
  by_cases hq : c = '"' || c = '\''
  · have hquote : Quote c := by simpa [Quote] using hq
    rw [lexeme_quote hquote]
    exact fun _ => matches_string hquote cs
  -- What is left is a mark, or a minus in front of digits.
  fun_cases lexeme c cs with
  | case27 d cs hdigit => exact fun _ => .number (number_take (.inr rfl) hdigit cs)
  | case30 | case31 | case32 => contradiction
  | case33 => exact fun hk => absurd rfl hk
  | _ => exact fun _ => .mark (by simp [marks])

end Cut

/-! ## No match is longer -/

namespace Lexicon

theorem Matches.kind_ne {kind : Kind} {word rest : Text} (h : Matches kind word rest) :
    kind ≠ .unknown := by
  have hmarks : ∀ p ∈ marks, p.2 ≠ .unknown := by decide
  have hkeywords : ∀ p ∈ keywords, p.2 ≠ .unknown := by decide
  cases h with
  | mark h => exact hmarks _ h
  | keyword _ h => exact hkeywords _ h
  | _ => simp

theorem Matches.length_pos {kind : Kind} {word rest : Text} (h : Matches kind word rest) :
    0 < word.length := by
  have hmarks : ∀ p ∈ marks, 0 < p.1.length := by decide
  cases h with
  | mark h => exact hmarks _ h
  | number h =>
    obtain ⟨sign, whole, fraction, rfl, -, ⟨hwhole, -⟩, -⟩ := h
    have := List.length_pos_iff.mpr hwhole
    simp only [List.length_append]
    omega
  | keyword h | identifier h =>
    obtain ⟨c, cs, rfl, -⟩ := h
    exact Nat.succ_pos _
  | _ => exact Nat.succ_pos _

/-- A match goes no further than a cut, and has the cut's kind where it goes as far. -/
def Within (kind : Kind) (word : Text) (cut : Cut Kind) : Prop :=
  word.length < cut.more + 1 ∨ word.length = cut.more + 1 ∧ kind = cut.kind

theorem within_lessThan (rest : Text) : Within .lessThan ['<'] (Cut.lexeme '<' rest) := by
  cases rest with
  | nil => exact .inr ⟨rfl, rfl⟩
  | cons d ds =>
    by_cases h₁ : d = '>'
    · subst h₁
      exact .inl (Nat.lt_succ_self 1)
    by_cases h₂ : d = '='
    · subst h₂
      exact .inl (Nat.lt_succ_self 1)
    · simp [Within, Cut.lexeme, h₁, h₂]

theorem within_greaterThan (rest : Text) : Within .greaterThan ['>'] (Cut.lexeme '>' rest) := by
  cases rest with
  | nil => exact .inr ⟨rfl, rfl⟩
  | cons d ds =>
    by_cases h₁ : d = '>'
    · subst h₁
      exact .inl (Nat.lt_succ_self 1)
    by_cases h₂ : d = '?'
    · subst h₂
      exact .inl (Nat.lt_succ_self 1)
    by_cases h₃ : d = '='
    · subst h₃
      exact .inl (Nat.lt_succ_self 1)
    · simp [Within, Cut.lexeme, h₁, h₂, h₃]

theorem within_minus (rest : Text) : Within .minus ['-'] (Cut.lexeme '-' rest) := by
  cases rest with
  | nil => exact .inr ⟨rfl, rfl⟩
  | cons d ds =>
    simp only [Cut.lexeme]
    split
    · next hd =>
      rw [numberTail_cons hd]
      exact .inl (Nat.succ_lt_succ (Nat.succ_pos _))
    · exact .inr ⟨rfl, rfl⟩

theorem within_mark {kind : Kind} {word rest cs : Text} {c : Char} (h : (word, kind) ∈ marks)
    (hw : word ++ rest = c :: cs) : Within kind word (Cut.lexeme c cs) := by
  simp only [marks, List.mem_cons, List.not_mem_nil, or_false, Prod.mk.injEq] at h
  rcases h with ⟨rfl, rfl⟩ | ⟨rfl, rfl⟩ | ⟨rfl, rfl⟩ | ⟨rfl, rfl⟩ | ⟨rfl, rfl⟩ | ⟨rfl, rfl⟩ |
    ⟨rfl, rfl⟩ | ⟨rfl, rfl⟩ | ⟨rfl, rfl⟩ | ⟨rfl, rfl⟩ | ⟨rfl, rfl⟩ | ⟨rfl, rfl⟩ | ⟨rfl, rfl⟩ |
    ⟨rfl, rfl⟩ | ⟨rfl, rfl⟩ | ⟨rfl, rfl⟩ | ⟨rfl, rfl⟩ | ⟨rfl, rfl⟩ | ⟨rfl, rfl⟩ | ⟨rfl, rfl⟩ |
    ⟨rfl, rfl⟩ | ⟨rfl, rfl⟩ | ⟨rfl, rfl⟩ | ⟨rfl, rfl⟩ | ⟨rfl, rfl⟩ | ⟨rfl, rfl⟩ | ⟨rfl, rfl⟩
  all_goals obtain ⟨rfl, rfl⟩ := List.cons.inj hw
  all_goals first
    | exact .inr ⟨rfl, rfl⟩
    | exact within_minus _
    | exact within_lessThan _
    | exact within_greaterThan _

theorem within_number {word rest cs : Text} {c : Char} (h : Number word)
    (hw : word ++ rest = c :: cs) : Within .number word (Cut.lexeme c cs) := by
  obtain ⟨sign, whole, fraction, rfl, hs, ⟨hnil, hwhole⟩, hfraction⟩ := h
  obtain ⟨d, ds, rfl⟩ := List.exists_cons_of_ne_nil hnil
  have hd : d.isDigit := digit_iff.mp (hwhole d (.head _))
  have hle := length_le_numberTail hwhole hfraction rest
  rw [List.cons_append, List.cons_append] at hle
  rcases hs with rfl | rfl
  · simp only [List.nil_append, List.cons_append, List.append_assoc] at hw
    obtain ⟨rfl, rfl⟩ := List.cons.inj hw
    rw [numberTail_cons hd] at hle
    rw [Cut.lexeme_digit hd, List.nil_append, List.cons_append]
    exact (Nat.lt_or_eq_of_le hle).imp_right (⟨·, rfl⟩)
  · simp only [List.nil_append, List.cons_append, List.append_assoc] at hw
    obtain ⟨rfl, rfl⟩ := List.cons.inj hw
    have hcut : Cut.lexeme '-' (d :: (ds ++ (fraction ++ rest)))
        = ⟨.number, Cut.numberTail (d :: (ds ++ (fraction ++ rest))), none⟩ := by
      simp only [Cut.lexeme, hd, if_true]
    rw [hcut]
    exact (Nat.lt_or_eq_of_le (Nat.succ_le_succ hle)).imp_right (⟨·, rfl⟩)

theorem within_name {word rest cs : Text} {c : Char} (h : Name word)
    (hw : word ++ rest = c :: cs) : Within (Cut.wordKind word) word (Cut.lexeme c cs) := by
  obtain ⟨d, ds, rfl, hstart, hparts⟩ := h
  obtain ⟨rfl, rfl⟩ := List.cons.inj hw
  rw [Cut.lexeme_wordStart (wordStart_iff.mp hstart), List.append_eq,
    List.takeWhile_append_of_pos fun e he => wordPart_iff.mp (hparts e he)]
  cases hrest : rest.takeWhile Cut.isWordPart with
  | nil => exact .inr ⟨by simp, by simp⟩
  | cons e es =>
    refine .inl ?_
    simp only [List.length_append, List.length_cons]
    omega

theorem within_string {quote : Char} {body tail rest cs : Text} {c : Char} (hq : Quote quote)
    (hb : Quoted quote body) (hw : quote :: (body ++ tail) ++ rest = c :: cs)
    (ht : (Cut.stringTail quote (tail ++ rest)).1 = tail.length) :
    Within .string (quote :: (body ++ tail)) (Cut.lexeme c cs) := by
  obtain ⟨rfl, rfl⟩ := List.cons.inj hw
  rw [Cut.lexeme_quote hq, List.append_eq, List.append_assoc, stringTail_quoted hb, ht]
  exact .inr ⟨by simp [Nat.add_comm], rfl⟩

theorem Matches.within {kind : Kind} {word rest cs : Text} {c : Char} (h : Matches kind word rest)
    (hw : word ++ rest = c :: cs) : Within kind word (Cut.lexeme c cs) := by
  cases h with
  | mark h => exact within_mark h hw
  | number h => exact within_number h hw
  | keyword h hk =>
    have hword := within_name h hw
    rwa [Cut.wordKind, mem_keywords_iff.mp hk, Option.getD_some] at hword
  | identifier h hk =>
    have hword := within_name h hw
    have hnone : Kind.ofKeyword? (String.ofList word) = none :=
      Option.eq_none_iff_forall_ne_some.mpr fun kind h => hk kind (mem_keywords_iff.mpr h)
    rwa [Cut.wordKind, hnone, Option.getD_none] at hword
  | string hq hb => exact within_string hq hb hw (by simp [stringTail_closed hq])
  | @unclosed quote body rest hq hb hline =>
    rw [← List.append_nil body] at hw ⊢
    exact within_string hq hb hw (by simp [stringTail_unclosed hline])
  | dangling hq hb hline => exact within_string hq hb hw (by simp [stringTail_dangling hline])

end Lexicon

/-! ## The longest match -/

namespace Cut

open Lexicon

theorem lexeme_unknown {c : Char} {cs : Text} :
    (lexeme c cs).kind = .unknown → (lexeme c cs).more = 0 := by
  fun_cases lexeme c cs with
  | case31 =>
    intro h
    have hname := wordKind_isName (c :: cs.takeWhile isWordPart)
    rw [show wordKind (c :: cs.takeWhile isWordPart) = .unknown from h] at hname
    cases hname
  | _ => simp

/-- A cut takes the longest match. -/
theorem lexeme_munch (c : Char) (cs : Text) :
    Munch (lexeme c cs).kind (c :: cs.take (lexeme c cs).more) (cs.drop (lexeme c cs).more) := by
  by_cases hk : (lexeme c cs).kind = .unknown
  · rw [hk, lexeme_unknown hk, List.take_zero, List.drop_zero]
    refine .unknown fun kind word rest hw hmatch => ?_
    have hpos := hmatch.length_pos
    rcases hmatch.within hw with hlt | ⟨-, hkind⟩
    · rw [lexeme_unknown hk] at hlt
      omega
    · exact hmatch.kind_ne (hkind.trans hk)
  · refine .longest (lexeme_matches c cs hk) fun kind word rest hw hother => ?_
    have hle := (lexeme_append c cs []).2
    have hlength : (c :: cs.take (lexeme c cs).more).length = (lexeme c cs).more + 1 := by
      simp [hle]
    have hwhole : word ++ rest = c :: cs := by simpa using hw
    rw [hlength]
    refine (hother.within hwhole).imp_right fun ⟨heq, hkind⟩ => ⟨?_, hkind⟩
    exact (List.append_inj hw (heq.trans hlength.symm)).1

end Cut

/-! ## Whole texts -/

namespace Scan

/-- Where trivia stops, none starts. -/
theorem trivia?_of_rest {side : Cut.Side} {offset : Nat} {text cs : Text} {c : Char}
    (h : (gaps side offset text).rest = c :: cs) : Cut.trivia? side c cs = none := by
  fun_induction gaps side offset text with
  | case1 => cases h
  | case2 offset d ds hd =>
    cases h
    exact hd
  | case3 offset d ds cut hd piece tail ih => exact ih h

end Scan

theorem Lexicon.plain_of_trivia {c : Char} {cs : Text} :
    Cut.trivia? .leading c cs = none → Plain (c :: cs) := by
  fun_cases Cut.trivia? .leading c cs with
  | case4 | case6 => contradiction
  | case8 c cs hslash hstar hreturn hline hblank =>
    refine fun _ => ⟨by simpa using hblank, ?_, ?_⟩
    · rintro ⟨t, ht⟩
      obtain ⟨rfl, rfl⟩ := List.cons.inj ht
      exact hslash t rfl rfl
    · rintro ⟨t, ht⟩
      obtain ⟨rfl, rfl⟩ := List.cons.inj ht
      exact hstar t rfl rfl
  | _ => rintro ⟨⟩

open Lexicon

/-- Behind the trivia in front of it the next lexeme is the longest match. -/
theorem Scan.next_munches (offset : Nat) (text : Text) :
    (next offset text).value.kind ≠ .eof →
      ∃ rest, text = Gap.textOf (next offset text).value.leading
          ++ ((next offset text).value.text ++ rest)
        ∧ Plain ((next offset text).value.text ++ rest)
        ∧ Munch (next offset text).value.kind (next offset text).value.text rest := by
  intro hk
  have hwhole := gaps_fullText .leading offset text
  cases hrest : (gaps .leading offset text).rest with
  | nil => simp [next_of_end hrest] at hk
  | cons c cs =>
    obtain ⟨hleading, hkind, hbody, -⟩ := next_of_char hrest
    have hcut : c :: cs.take (Cut.lexeme c cs).more ++ cs.drop (Cut.lexeme c cs).more = c :: cs := by
      simp
    rw [hrest] at hwhole
    rw [hleading, hkind, hbody]
    refine ⟨cs.drop (Cut.lexeme c cs).more, ?_, ?_, Cut.lexeme_munch c cs⟩
    · rw [hcut, hwhole]
    · rw [hcut]
      exact plain_of_trivia (trivia?_of_rest hrest)

namespace Lexemes

theorem scanFrom_munches (offset : Nat) (text : Text) : ∀ {before : Text} {start : Nat} {l : Lexeme},
    (start, l) ∈ Lexeme.located (Text.width before) (scanFrom offset text).all → l.kind ≠ .eof →
      ∃ front rest, before ++ text = front ++ (l.text ++ rest) ∧ Text.width front = start
        ∧ Plain (l.text ++ rest) ∧ Munch l.kind l.text rest := by
  fun_induction scanFrom offset text
  case case1 offset text first hfirst =>
    intro before start l h hk
    obtain ⟨rfl, rfl⟩ := Prod.mk.inj (List.mem_singleton.mp h)
    exact absurd hfirst hk
  case case2 offset text first hfirst hlt tail ih =>
    intro before start l h hk
    rcases List.mem_cons.mp h with h | h
    · obtain ⟨rfl, rfl⟩ := Prod.mk.inj h
      obtain ⟨rest, htext, hplain, hmunch⟩ := Scan.next_munches offset text hfirst
      refine ⟨before ++ Gap.textOf first.value.leading, rest, ?_, ?_, hplain, hmunch⟩
      · rw [List.append_assoc, ← htext]
      · rw [Text.width_append, Lexeme.leadingWidth]
    · rw [← Lexeme.width_fullText, ← Text.width_append] at h
      obtain ⟨front, rest, heq, htail⟩ := ih h hk
      refine ⟨front, rest, ?_, htail⟩
      rw [← heq, List.append_assoc, Scan.next_fullText]

/-- Each lexeme of a text is the longest match at its place, where no trivia stands. -/
theorem scan_munches (text : Text) {start : Nat} {l : Lexeme}
    (h : (start, l) ∈ Lexeme.located 0 (scan text).all) (hk : l.kind ≠ .eof) :
    ∃ rest, Text.drop? start text = some (l.text ++ rest) ∧ Plain (l.text ++ rest)
      ∧ Munch l.kind l.text rest := by
  obtain ⟨front, rest, htext, rfl, hplain, hmunch⟩ := @scanFrom_munches 0 text [] start l h hk
  refine ⟨rest, ?_, hplain, hmunch⟩
  rw [← List.nil_append text, htext, Text.drop?_width_append]

/-- Two marks without a space between them. -/
theorem scan_munches_marks :
    let l : Lexeme := ⟨[], .greaterThanQuestionMark, ['>', '?'], []⟩
    (1, l) ∈ Lexeme.located 0 (scan ['%', '>', '?', '>']).all ∧ l.kind ≠ .eof
      ∧ ∃ rest, Text.drop? 1 ['%', '>', '?', '>'] = some (l.text ++ rest)
        ∧ Plain (l.text ++ rest) ∧ Munch l.kind l.text rest := by
  intro l
  have h : (1, l) ∈ Lexeme.located 0 (scan ['%', '>', '?', '>']).all := by decide +kernel
  have hk : l.kind ≠ .eof := by decide
  exact ⟨h, hk, scan_munches _ h hk⟩

end Lexemes

end Stylesheet
