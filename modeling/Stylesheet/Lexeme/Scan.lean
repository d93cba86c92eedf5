import Stylesheet.Diagnostic.Problem
import Stylesheet.Lexeme.Basic
import Stylesheet.Text.Blank

/-!
# Scanning a text into lexemes

A scan takes the longest lexeme at the front of what is left of a text.

* Trivia: comments, line ends and runs of blanks. In front of a lexeme all of it is taken; behind
  one it stops at the line's end. Two characters `/*` open a comment that ends with the first `*/`
  after them, or with the text.
* Words start with a letter or an underscore and go on with hyphens and digits too. Numbers may
  have a minus in front and a fraction. A string ends with its quote, or with its line.
* A character that starts nothing else is a lexeme of its own, and is reported.

Every cut takes one character and says how many more belong to it, so what is left is always
shorter (`Scan.next_rest_length_lt`) and nothing is lost (`Scan.next_fullText`).
-/
namespace Stylesheet

/-- What stands at the front of a text: its kind, and how many characters it takes after the
first. -/
structure Cut (κ : Type) where
  kind : κ
  more : Nat
  problem? : Option Problem := none

namespace Cut

/-! ## Trivia -/

/-- The characters of a comment after its opener, and whether it is closed. Mirrors
`multi_line_comment`. -/
def commentTail : Text → Nat × Bool
  | [] => (0, false)
  | '*' :: '/' :: _ => (2, true)
  | _ :: cs =>
    let (more, closed) := commentTail cs
    (more + 1, closed)

/-- On which side of its lexeme trivia stands. Mirrors `TriviaPosition`. -/
inductive Side where
  | leading
  | trailing
  deriving DecidableEq, Repr

/-- The trivia at the front of the text `c :: cs`. -/
def trivia? (side : Side) (c : Char) (cs : Text) : Option (Cut TriviaKind) :=
  match c, cs with
  | '/', '/' :: cs => some ⟨.singleLineComment, 1 + (cs.takeWhile (!isLineEnd ·)).length, none⟩
  | '/', '*' :: cs =>
    let (more, closed) := commentTail cs
    some ⟨.multiLineComment, 1 + more, if closed then none else some .unterminatedComment⟩
  | '\r', '\n' :: _ => if side = .leading then some ⟨.endOfLine, 1, none⟩ else none
  | c, cs =>
    if isLineEnd c then
      if side = .leading then some ⟨.endOfLine, 0, none⟩ else none
    else if isBlank c then some ⟨.whitespace, (cs.takeWhile isInlineBlank).length, none⟩
    else none

/-! ## Lexemes -/

/-- The digits at the front of a text, and a fraction if one follows them. Mirrors `number`. -/
def numberTail (cs : Text) : Nat :=
  let digits := (cs.takeWhile Char.isDigit).length
  match cs.dropWhile Char.isDigit with
  | '.' :: d :: rest =>
    if d.isDigit then digits + 2 + (rest.takeWhile Char.isDigit).length else digits
  | _ => digits

/-- The characters of a string after its opening quote, and whether the quote comes again. A
backslash takes the next character with it, but no line end. Mirrors `string`. -/
def stringTail (quote : Char) : Text → Nat × Bool
  | [] => (0, false)
  | '\\' :: [] => (1, false)
  | '\\' :: c :: cs =>
    if isLineEnd c then (1, false)
    else
      let (more, closed) := stringTail quote cs
      (more + 2, closed)
  | c :: cs =>
    if isLineEnd c then (0, false)
    else if c = quote then (1, true)
    else
      let (more, closed) := stringTail quote cs
      (more + 1, closed)

def isWordStart (c : Char) : Bool := c.isAlpha || c = '_'

def isWordPart (c : Char) : Bool := c.isAlphanum || c = '_' || c = '-'

/-- The kind of a word: a keyword, or an identifier. -/
def wordKind (word : Text) : Kind := (Kind.ofKeyword? (String.ofList word)).getD .identifier

/-- The lexeme at the front of the text `c :: cs`, which starts with no trivia. Mirrors
`syntax_kind`. -/
def lexeme (c : Char) (cs : Text) : Cut Kind :=
  match c, cs with
  | '\x7b', _ => ⟨.leftBrace, 0, none⟩
  | '\x7d', _ => ⟨.rightBrace, 0, none⟩
  | '(', _ => ⟨.leftParen, 0, none⟩
  | ')', _ => ⟨.rightParen, 0, none⟩
  | '[', _ => ⟨.leftBracket, 0, none⟩
  | ']', _ => ⟨.rightBracket, 0, none⟩
  | ':', _ => ⟨.colon, 0, none⟩
  | ';', _ => ⟨.semicolon, 0, none⟩
  | ',', _ => ⟨.comma, 0, none⟩
  | '.', _ => ⟨.period, 0, none⟩
  | '#', _ => ⟨.hash, 0, none⟩
  | '@', _ => ⟨.atSign, 0, none⟩
  | '*', _ => ⟨.asterisk, 0, none⟩
  | '!', _ => ⟨.exclamationMark, 0, none⟩
  | '|', _ => ⟨.pipe, 0, none⟩
  | '+', _ => ⟨.plus, 0, none⟩
  | '/', _ => ⟨.slash, 0, none⟩
  | '%', _ => ⟨.percent, 0, none⟩
  | '=', _ => ⟨.equals, 0, none⟩
  | '<', '>' :: _ => ⟨.notEquals, 1, none⟩
  | '<', '=' :: _ => ⟨.lessThanEquals, 1, none⟩
  | '<', _ => ⟨.lessThan, 0, none⟩
  | '>', '>' :: _ => ⟨.greaterThanGreaterThan, 1, none⟩
  | '>', '?' :: _ => ⟨.greaterThanQuestionMark, 1, none⟩
  | '>', '=' :: _ => ⟨.greaterThanEquals, 1, none⟩
  | '>', _ => ⟨.greaterThan, 0, none⟩
  | '-', d :: cs => if d.isDigit then ⟨.number, numberTail (d :: cs), none⟩ else ⟨.minus, 0, none⟩
  | '-', [] => ⟨.minus, 0, none⟩
  | c, cs =>
    if c.isDigit then ⟨.number, numberTail cs, none⟩
    else if isWordStart c then
      let more := cs.takeWhile isWordPart
      ⟨wordKind (c :: more), more.length, none⟩
    else if c = '"' || c = '\'' then
      let (more, closed) := stringTail c cs
      ⟨.string, more, if closed then none else some .unterminatedString⟩
    else ⟨.unknown, 0, some (.unknownCharacter c)⟩

/-- What a cut reports of the text it took at an offset. -/
def reports {κ : Type} (cut : Cut κ) (offset : Nat) (text : Text) : List Diagnostic :=
  (cut.problem?.map fun p => p.reportAt (Span.ofWidth offset (Text.width text))).toList

end Cut

/-! ## The scan -/

/-- A part of a scan: what was found, what is left of the text, and what is to be reported. -/
structure Scanned (α : Type) where
  value : α
  rest : Text
  reports : List Diagnostic

namespace Scan

/-- All the trivia at the front of a text that starts at an offset. Mirrors `Tokenizer::trivia`. -/
def gaps (side : Cut.Side) (offset : Nat) (text : Text) : Scanned (List Gap) :=
  match text with
  | [] => ⟨[], [], []⟩
  | c :: cs =>
    match Cut.trivia? side c cs with
    | none => ⟨[], c :: cs, []⟩
    | some cut =>
      let piece := c :: cs.take cut.more
      let tail := gaps side (offset + Text.width piece) (cs.drop cut.more)
      ⟨⟨cut.kind, piece⟩ :: tail.value, tail.rest, cut.reports offset piece ++ tail.reports⟩
termination_by text.length
decreasing_by simp only [List.length_drop, List.length_cons]; omega

/-- The next lexeme of a text that starts at an offset. At the end of the text it is the empty
lexeme of kind `eof`, with whatever trivia stood before it and none behind. Mirrors
`Tokenizer::next_token`. -/
def next (offset : Nat) (text : Text) : Scanned Lexeme :=
  let lead := gaps .leading offset text
  let start := offset + Text.width (Gap.textOf lead.value)
  match lead.rest with
  | [] => ⟨⟨lead.value, .eof, [], []⟩, [], lead.reports⟩
  | c :: cs =>
    let cut := Cut.lexeme c cs
    let piece := c :: cs.take cut.more
    let trail := gaps .trailing (start + Text.width piece) (cs.drop cut.more)
    ⟨⟨lead.value, cut.kind, piece, trail.value⟩, trail.rest,
      lead.reports ++ cut.reports start piece ++ trail.reports⟩

theorem gaps_fullText (side : Cut.Side) (offset : Nat) (text : Text) :
    Gap.textOf (gaps side offset text).value ++ (gaps side offset text).rest = text := by
  fun_induction gaps side offset text with
  | case1 => rfl
  | case2 => rfl
  | case3 offset c cs cut h piece tail ih =>
    simp only [Gap.textOf, List.flatMap_cons, List.append_assoc] at ih ⊢
    rw [ih]
    simp [piece]

/-- Where only trivia is left. -/
theorem next_of_end {offset : Nat} {text : Text} (h : (gaps .leading offset text).rest = []) :
    next offset text
      = ⟨⟨(gaps .leading offset text).value, .eof, [], []⟩, [],
        (gaps .leading offset text).reports⟩ := by
  simp only [next, h]

/-- Where a character stands behind the trivia. -/
theorem next_of_char {offset : Nat} {text cs : Text} {c : Char}
    (h : (gaps .leading offset text).rest = c :: cs) :
    (next offset text).value.leading = (gaps .leading offset text).value
      ∧ (next offset text).value.kind = (Cut.lexeme c cs).kind
      ∧ (next offset text).value.text = c :: cs.take (Cut.lexeme c cs).more
      ∧ Gap.textOf (next offset text).value.trailing ++ (next offset text).rest
        = cs.drop (Cut.lexeme c cs).more := by
  simp only [next, h, gaps_fullText, and_self]

theorem next_fullText (offset : Nat) (text : Text) :
    (next offset text).value.fullText ++ (next offset text).rest = text := by
  have whole := gaps_fullText .leading offset text
  cases h : (gaps .leading offset text).rest with
  | nil =>
    rw [h] at whole
    simpa [next_of_end h, Lexeme.fullText, Gap.textOf] using whole
  | cons c cs =>
    obtain ⟨leading, -, body, rest⟩ := next_of_char h
    rw [h] at whole
    simp [Lexeme.fullText, leading, body, rest, whole]

theorem next_rest_length_lt {offset : Nat} {text : Text}
    (h : (next offset text).value.kind ≠ .eof) : (next offset text).rest.length < text.length := by
  have whole := congrArg List.length (next_fullText offset text)
  have nonempty : 0 < (next offset text).value.text.length := by
    cases hr : (gaps .leading offset text).rest with
    | nil => simp [next_of_end hr] at h
    | cons c cs => simp [(next_of_char hr).2.2.1]
  simp only [Lexeme.fullText, List.length_append] at whole
  omega

end Scan

/-! ## Whole texts -/

/-- A text as lexemes: those that stand for something, then the one that ends it. Mirrors
`Tokenized`. -/
structure Lexemes where
  body : List Lexeme
  final : Lexeme
  reports : List Diagnostic

namespace Lexemes

/-- Every lexeme, the final one included. -/
def all (ls : Lexemes) : List Lexeme := ls.body ++ [ls.final]

/-- The lexemes of a text that starts at an offset. -/
def scanFrom (offset : Nat) (text : Text) : Lexemes :=
  let first := Scan.next offset text
  if h : first.value.kind = .eof then ⟨[], first.value, first.reports⟩
  else
    have := Scan.next_rest_length_lt h
    let tail := scanFrom (offset + first.value.fullWidth) first.rest
    ⟨first.value :: tail.body, tail.final, first.reports ++ tail.reports⟩
termination_by text.length

/-- The lexemes of a text. Mirrors `tokenize`. -/
def scan (text : Text) : Lexemes := scanFrom 0 text

/-- The next `count` lexemes, and what was reported of them. Past the end there are only empty
final ones. -/
def scanExactly : Nat → Nat → Text → List Lexeme × List Diagnostic
  | 0, _, _ => ([], [])
  | count + 1, offset, text =>
    let first := Scan.next offset text
    let (more, reports) := scanExactly count (offset + first.value.fullWidth) first.rest
    (first.value :: more, first.reports ++ reports)

end Lexemes

end Stylesheet
